import Tle.Queue.Lemmas.Fencing
import Tle.Queue.Lemmas.JobRows
import Tle.Queue.Lemmas.Rejudge
import Tle.Queue.Lemmas.Transactions

/-!
# The grading queue
-/

namespace Tle.Queue
open Tle.Lib

/-! ## Fencing -/

/-- The call returns 0 and the submission then carries the call's report. -/
def Stores (d : Db) (c : CompleteCall) : Prop :=
  (completeSubmission c (.idle d)).2 = 0 ∧
    ∃ row, d.submission (rowKey c.id) = some row ∧
      (completeSubmission c (.idle d)).1.committed.submission (rowKey c.id) =
        some (row.withReport c.report)

/-- The call returns -1 and leaves every table as it is. -/
def Refused (d : Db) (c : CompleteCall) : Prop :=
  (completeSubmission c (.idle d)).2 = -1 ∧ (completeSubmission c (.idle d)).1.committed = d

theorem stores_iff_held {d : Db} {c : CompleteCall} (hok : c.allOk = true) :
    Stores d c ↔ d.held c.id c.token = true := by
  obtain ⟨-, hheld, heq⟩ | ⟨hnot, -, hcode⟩ := completeSubmission_cases c d
  · refine iff_of_true ⟨by rw [heq], ?_⟩ hheld
    obtain ⟨j, hj⟩ : ∃ j, d.job (rowKey c.id) = some j := by
      cases hj : d.job (rowKey c.id) with
      | none => simp [Db.held, hj] at hheld
      | some j => exact ⟨j, rfl⟩
    obtain ⟨row, hrow⟩ := d.references _ j hj
    refine ⟨row, hrow, ?_⟩
    rw [heq, Session.idle_committed]
    have hsub : (d.complete c).submission (rowKey c.id) = _ := Db.submission_storeResult
    rw [hsub, if_pos rfl]
    exact congrArg (Option.map _) hrow
  · refine iff_of_false ?_ ?_
    · rintro ⟨hzero, -⟩
      rw [hcode] at hzero
      cases hzero
    · rw [hok, Bool.true_and] at hnot
      simp [hnot]

theorem refused_of_not_held {d : Db} {c : CompleteCall} (h : d.held c.id c.token ≠ true) :
    Refused d c := by
  obtain ⟨-, hheld, -⟩ | ⟨-, hcommitted, hcode⟩ := completeSubmission_cases c d
  · exact absurd hheld h
  · exact ⟨hcode, hcommitted⟩

/-- Only the token of the current claim stores a result, at most one token does, every token does at
most once, and any other call is refused. -/
theorem completion_fenced (as : List Action) (hdistinct : (claimTokens as).Nodup) :
    (∀ c : CompleteCall, c.allOk = true →
      (Stores (after as).db c ↔ Current (events as) c.id c.token)) ∧
    (∀ id token token', Current (events as) id token → Current (events as) id token' →
      token = token') ∧
    (Lease.finished ((events as).map Event.lease)).Nodup ∧
    (∀ c : CompleteCall, ¬ Current (events as) c.id c.token → Refused (after as).db c) := by
  refine ⟨fun c hok => ?_, fun _ _ _ h h' => h.unique h', ?_, fun c hnot => ?_⟩
  · exact (stores_iff_held hok).trans (held_iff_current as c.id c.token)
  · exact Lease.finished_nodup (fenced as).legal ((granted_sublist as).nodup hdistinct)
  · exact refused_of_not_held fun hheld => hnot ((held_iff_current as c.id c.token).mp hheld)

def anEnqueue : Action :=
  .enqueue { userId := 1, taskPk := 1, code := some "x".toList, isPublic := true }

def aClaim (token : String) (now : Int) : Action :=
  .claim { token := token.toList, expiryNow := now, claimNow := now }

def aReport (result : String) : Report where
  result := result.toList
  timeUsed := 10
  memoryUsed := 20
  score := 100
  compilerOutput := none
  subtaskResults := none

def aComplete (token result : String) : Action :=
  .complete { id := 1, report := aReport result, token := token.toList }

/-- A second grader claims the expired job: the first one's token is refused, its own stores. -/
theorem completion_fenced_reclaimed :
    let as := [anEnqueue, aClaim "a" 0, aClaim "b" 1000]
    Refused (after as).db { id := 1, report := aReport "wa#1", token := "a".toList } ∧
      Stores (after as).db { id := 1, report := aReport "accepted!", token := "b".toList } := by
  intro as
  obtain ⟨hstores, -, -, hrefused⟩ := completion_fenced as (by decide)
  have hevents : (events as).map Event.lease =
      [.grant 1 "a".toList, .revoke 1, .grant 1 "b".toList] := by decide
  have hb : Current (events as) 1 "b".toList :=
    ⟨[.grant 1 "a".toList, .revoke 1], [], hevents, by simp⟩
  refine ⟨hrefused _ fun ha => ?_, (hstores _ rfl).mpr hb⟩
  exact absurd (Lease.Current.unique ha hb) (by decide)

/-! ## Rejudging -/

/-- Jobs and results stay together in every state of a run exactly when none of its requeue
statements takes effect on a finished job. -/
theorem results_kept_iff (as : List Action) :
    (∀ pre, pre <+: as → Consistent (events pre) (after pre).db) ↔
      ∀ pre a, pre ++ [a] <+: as → Undisturbed (after pre) a :=
  all_states_iff_all_steps (P := fun es (s : System) => Consistent es s.db) Consistent.init
    (fun _ s a h => Consistent.step_iff s h a) as

/-- A rejudge whose second statement comes after the new grading clears the new result. -/
def lateClear : List Action :=
  [anEnqueue, aClaim "a" 0, aComplete "a" "wa#1", .requeueJob 0 1 true, aClaim "b" 1,
    aComplete "b" "accepted!", .requeueClear 0 true]

theorem results_not_always_kept : ¬ ∀ as, Consistent (events as) (after as).db := by
  intro h
  have hjob : ((after lateClear).db.job 1).map (·.status) = some .finished := by decide
  have hsub : ((after lateClear).db.submission 1).map (·.verdict) = some none := by decide
  obtain ⟨j, hj, hstatus⟩ := Option.map_eq_some_iff.mp hjob
  obtain ⟨s, hs, hverdict⟩ := Option.map_eq_some_iff.mp hsub
  have hrow := h lateClear 1 j s hj hs
  rw [if_pos hstatus] at hrow
  exact hrow.2 hverdict

/-! ## Transactions -/

/-- A queue operation leaves its connection outside any transaction, and after a failure the committed
tables as they were, exactly when the statement that ends its transaction does not fail. -/
theorem leavesClean_iff_settles (d : Db) :
    (∀ c, LeavesClean (-1) d (enqueueSubmission c (.idle d)) ↔ c.Settles d) ∧
    (∀ c, LeavesClean .failed d (claimSubmission c (.idle d)) ↔ c.Settles d) ∧
    (∀ c, LeavesClean (-1) d (completeSubmission c (.idle d)) ↔ c.Settles d) :=
  ⟨fun c => enqueueSubmission_leavesClean c d, fun c => claimSubmission_leavesClean c d,
    fun c => completeSubmission_leavesClean c d⟩

/-- `COMMIT` fails with the transaction still open, and nothing rolls it back. -/
def busyEnqueue : EnqueueCall where
  userId := 1
  taskPk := 1
  code := some "x".toList
  isPublic := true
  commit_ok := false

theorem transaction_left_open : ¬ ∀ d : Db,
    (∀ c, LeavesClean (-1) d (enqueueSubmission c (.idle d))) ∧
    (∀ c, LeavesClean .failed d (claimSubmission c (.idle d))) ∧
    (∀ c, LeavesClean (-1) d (completeSubmission c (.idle d))) := by
  intro h
  have hnext := ((h .empty).1 busyEnqueue).next
  have hrefused : ((enqueueSubmission busyEnqueue (.idle .empty)).1.beginImmediate true).isSome = false :=
    by decide
  rw [hrefused] at hnext
  cases hnext

/-! ## The rows of the jobs -/

/-- After any calls of any processes, each submission has one job, and the three columns of a job that
say whether it is claimed agree. -/
theorem jobs_coherent (as : List (Nat × Call)) :
    (∀ s ∈ (connectionsAfter as).db.submissions.rows,
      ∃! j, j ∈ (connectionsAfter as).db.gradingJobs.rows ∧ j.submissionId = s.submissionId) ∧
    ∀ j ∈ (connectionsAfter as).db.gradingJobs.rows,
      (j.status = .grading ↔ j.claimToken ≠ none) ∧ (j.claimToken ≠ none ↔ j.claimedAt ≠ none) := by
  obtain ⟨bs, hbs⟩ := connectionsAfter_db as
  obtain ⟨hcoherent, hcovered⟩ := jobRows bs
  rw [hbs]
  constructor
  · intro s hs
    obtain ⟨j, hj⟩ := hcovered _ s (Table.mem_rows_iff.mp hs)
    refine ⟨j, ⟨Table.find_mem hj, Db.job_key hj⟩, ?_⟩
    rintro j' ⟨hmem, hkey⟩
    have hj' : (after bs).db.job j'.submissionId = some j' := Table.mem_rows_iff.mp hmem
    rw [hkey, hj] at hj'
    exact (Option.some.inj hj').symm
  · intro j hj
    obtain ⟨htoken, htime⟩ := hcoherent _ j (Table.mem_rows_iff.mp hj)
    exact ⟨htoken, htime⟩

end Tle.Queue
