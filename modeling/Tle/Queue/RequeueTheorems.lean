import Tle.Queue.Theorems

/-!
# What a rejudge leaves of the old result
-/

namespace Tle.Queue
open Tle.Lib

/-- The row as `enqueue_submission` has inserted it, in the columns that `complete_submission` can write. -/
def Submission.fresh (s : Submission) : Submission where
  submissionId := s.submissionId
  userId := s.userId
  taskPk := s.taskPk
  result := s.result
  code := s.code
  isPublic := s.isPublic

/-- The row as `enqueue_submission` has inserted it, but for the number of attempts. -/
def GradingJob.fresh (j : GradingJob) : GradingJob where
  submissionId := j.submissionId
  attempts := j.attempts

/-- The submission with key `k` and its job look as if it had never been graded. -/
def AsEnqueued (d : Db) (k : Int) : Prop :=
  ∃ s j, d.submission k = some s ∧ d.job k = some j ∧ s = s.fresh ∧ j = j.fresh

variable {d : Db} {id : BitVec 32} {first_ok second_ok : Bool}

/-- The columns that a report writes are among those that are reset. -/
theorem fresh_withReport (r : Report) (s : Submission) : (s.withReport r).fresh = s.fresh := rfl

theorem fresh_requeue (j : GradingJob) : j.requeue = j.requeue.fresh := rfl

theorem withoutResult_eq_fresh_iff (s : Submission) :
    s.withoutResult = s.withoutResult.fresh ↔ s.subtaskResults = none := by
  simp [Submission.withoutResult, Submission.fresh]

/-- `requeue_submission` resets all columns but `subtask_results`. -/
theorem requeue_resets_iff (h : (requeueSubmission first_ok second_ok id (.idle d)).2 = 1) :
    AsEnqueued (requeueSubmission first_ok second_ok id (.idle d)).1.committed (rowKey id) ↔
      ∃ s, d.submission (rowKey id) = some s ∧ s.subtaskResults = none := by
  obtain ⟨hend, j, hj, hstatus⟩ := requeueSubmission_eq_one h
  obtain ⟨s, hs⟩ := d.references _ j hj
  have hsub : ((d.requeueJob id).1.clearResult id).1.submission (rowKey id) = some s.withoutResult := by
    rw [Db.submission_clearResult, if_pos rfl]
    exact congrArg (Option.map _) hs
  have hjob : ((d.requeueJob id).1.clearResult id).1.job (rowKey id) = some j.requeue := by
    have hfirst : (d.requeueJob id).1.job (rowKey id) = some j.requeue := by
      rw [Db.job_requeueJob, if_pos rfl, hj, Option.map_some, if_pos hstatus]
    exact hfirst
  have hrow : d.submission (rowKey id) = some s := hs
  simp only [AsEnqueued, hend, Session.idle_committed, hsub, hjob, hrow, Option.some.injEq,
    exists_and_left, exists_eq_left', withoutResult_eq_fresh_iff, ← fresh_requeue, and_true]

/-- A submission that was judged with the result string `results`. -/
def judged (results : Option Text) : Db :=
  (after [anEnqueue, aClaim "a" 0, .complete
    { id := 1, token := "a".toList, report := { aReport "wa#1" with subtaskResults := results } }]).db

theorem requeue_resets_ungrouped : AsEnqueued
    (requeueSubmission true true 1 (.idle (judged none))).1.committed 1 := by
  refine (requeue_resets_iff (by decide)).mpr ?_
  exact ⟨_, rfl, rfl⟩

theorem requeue_not_resets : ¬ ∀ (d : Db) (id : BitVec 32) (first_ok second_ok : Bool),
    (requeueSubmission first_ok second_ok id (.idle d)).2 = 1 →
      AsEnqueued (requeueSubmission first_ok second_ok id (.idle d)).1.committed (rowKey id) := by
  intro h
  obtain ⟨s, j, hs, -, hfresh, -⟩ := h (judged (some "W".toList)) 1 true true (by decide)
  have hold : ((requeueSubmission true true 1 (.idle (judged (some "W".toList)))).1.committed.submission
      (rowKey 1)).map (·.subtaskResults) = some (some "W".toList) := by decide
  rw [hs, hfresh] at hold
  cases hold

end Tle.Queue
