import Tle.Queue.Ops

/-!
# What each statement does to the row of a key
-/

namespace Tle.Queue
open Tle.Lib

namespace Db

variable {d : Db} {k : Int}

@[simp] theorem job_empty : empty.job k = none := rfl

theorem job_key {j : GradingJob} (h : d.job k = some j) : j.submissionId = k := Table.find_key h

theorem submission_key {s : Submission} (h : d.submission k = some s) : s.submissionId = k :=
  Table.find_key h

/-! ## Updates -/

theorem job_updateJobs {p f hf} : (d.updateJobs p f hf).1.job k =
    (d.job k).map (fun j => if p j then f j else j) :=
  Table.find_updateWhere _ _ _ hf _

@[simp] theorem submission_updateJobs {p f hf} :
    (d.updateJobs p f hf).1.submission k = d.submission k := rfl

@[simp] theorem job_updateSubmissions {p f hf} :
    (d.updateSubmissions p f hf).1.job k = d.job k := rfl

theorem submission_updateSubmissions {p f hf} : (d.updateSubmissions p f hf).1.submission k =
    (d.submission k).map (fun s => if p s then f s else s) :=
  Table.find_updateWhere _ _ _ hf _

/-- An update whose condition `q` names the key `k₀` touches the job of `k₀` only. -/
theorem job_updateJobs_of_key {k₀ : Int} {p q : GradingJob → Bool} {f hf}
    (hp : ∀ j, p j = (decide (j.submissionId = k₀) && q j)) :
    (d.updateJobs p f hf).1.job k =
      if k = k₀ then (d.job k).map (fun j => if q j then f j else j) else d.job k := by
  rw [job_updateJobs]
  cases hj : d.job k with
  | none => simp
  | some j =>
      have hk := job_key hj
      by_cases h : k = k₀ <;> simp [hp, hk, h]

theorem changes_updateJobs_of_key {k₀ : Int} {p q : GradingJob → Bool} {f hf}
    (hp : ∀ j, p j = (decide (j.submissionId = k₀) && q j)) :
    (d.updateJobs p f hf).2 = if (d.job k₀).any q then 1 else 0 := by
  have hchanges := Table.changes_of_key d.gradingJobs (p := p) (k := k₀)
    (fun j hj => by rw [hp] at hj; simpa using (Bool.and_eq_true_iff.mp hj).1)
  refine hchanges.trans ?_
  change (if (d.job k₀).any p then 1 else 0) = _
  cases hj : d.job k₀ with
  | none => rfl
  | some j =>
      have hk := job_key hj
      simp [hp, hk]

/-! ## The statements of the operations -/

theorem job_expireJobs {now : Int} : (d.expireJobs now).1.job k =
    (d.job k).map (fun j => if j.expired now then j.requeue else j) :=
  job_updateJobs

theorem job_claimJob {id : BitVec 32} {token : Text} {now : Int} :
    (d.claimJob id token now).1.job k =
      if k = rowKey id then
        (d.job k).map (fun j => if j.status = .queued then
          { j with
            status := .grading, claimedAt := some now, claimToken := some token
            attempts := j.attempts + 1 } else j)
      else d.job k := by
  unfold claimJob
  rw [job_updateJobs_of_key (fun _ => rfl)]
  simp

theorem changes_claimJob {id : BitVec 32} {token : Text} {now : Int} :
    (d.claimJob id token now).2 = if (d.job (rowKey id)).any (·.status = .queued) then 1 else 0 :=
  changes_updateJobs_of_key (fun _ => rfl)

/-- The job of `id` is claimed with `token`. -/
def held (d : Db) (id : BitVec 32) (token : Text) : Bool :=
  (d.job (rowKey id)).any fun j => j.claimToken = some token && j.status = .grading

theorem heldBy_eq (id : BitVec 32) (token : Text) (j : GradingJob) : GradingJob.heldBy id token j =
    (decide (j.submissionId = rowKey id) &&
      (decide (j.claimToken = some token) && decide (j.status = .grading))) := by
  simp [GradingJob.heldBy, Bool.and_assoc]

theorem job_finishJob {id : BitVec 32} {token : Text} :
    (d.finishJob id token).1.job k =
      if k = rowKey id then
        (d.job k).map (fun j => if j.claimToken = some token ∧ j.status = .grading then
          { j with status := .finished, claimedAt := none, claimToken := none } else j)
      else d.job k := by
  unfold finishJob
  rw [job_updateJobs_of_key (heldBy_eq id token)]
  simp

theorem changes_finishJob {id : BitVec 32} {token : Text} :
    (d.finishJob id token).2 = if d.held id token then 1 else 0 :=
  changes_updateJobs_of_key (heldBy_eq id token)

theorem requeueable_eq (id : BitVec 32) (j : GradingJob) : GradingJob.requeueable id j =
    (decide (j.submissionId = rowKey id) &&
      (decide (j.status = .finished) || decide (j.status = .grading))) :=
  rfl

theorem job_requeueJob {id : BitVec 32} :
    (d.requeueJob id).1.job k =
      if k = rowKey id then
        (d.job k).map (fun j => if j.status = .finished ∨ j.status = .grading then j.requeue else j)
      else d.job k := by
  unfold requeueJob
  rw [job_updateJobs_of_key (requeueable_eq id)]
  simp

theorem changes_requeueJob {id : BitVec 32} : (d.requeueJob id).2 =
    if (d.job (rowKey id)).any (fun j => j.status = .finished || j.status = .grading) then 1 else 0 :=
  changes_updateJobs_of_key (requeueable_eq id)

theorem submission_of_key {k₀ : Int} {f hf} :
    (d.updateSubmissions (fun s => s.submissionId = k₀) f hf).1.submission k =
      if k = k₀ then (d.submission k).map f else d.submission k := by
  rw [submission_updateSubmissions]
  cases hs : d.submission k with
  | none => simp
  | some s =>
      have hk := submission_key hs
      by_cases h : k = k₀ <;> simp [hk, h]

theorem submission_storeResult {id : BitVec 32} {r : Report} :
    (d.storeResult id r).1.submission k =
      if k = rowKey id then (d.submission k).map (Submission.withReport r) else d.submission k :=
  submission_of_key

theorem submission_clearResult {id : BitVec 32} :
    (d.clearResult id).1.submission k =
      if k = rowKey id then (d.submission k).map Submission.withoutResult else d.submission k :=
  submission_of_key

/-! ## Inserts -/

theorem insertSubmission_spec {userId taskPk code isPublic} {d' : Db} {id : Int}
    (h : d.insertSubmission userId taskPk code isPublic = some (d', id)) :
    (∀ k, d'.job k = d.job k) ∧ (∀ k, d'.submission k =
      if id = k then some { submissionId := id, userId, taskPk, code, isPublic }
      else d.submission k) := by
  simp only [insertSubmission] at h
  split at h
  · cases h
  · rename_i hins
    cases h
    exact ⟨fun _ => rfl, fun k => Table.find_insert? hins k⟩

theorem insertSubmission_fresh {userId taskPk code isPublic} {d' : Db} {id : Int}
    (h : d.insertSubmission userId taskPk code isPublic = some (d', id)) : d.submission id = none := by
  simp only [insertSubmission] at h
  split at h
  · cases h
  · rename_i hins
    cases h
    exact Table.find_of_insert? hins

theorem insertSubmission_sequence {userId taskPk code isPublic} {d' : Db} {id : Int}
    (h : d.insertSubmission userId taskPk code isPublic = some (d', id)) :
    id = d.sequence + 1 ∧ d'.sequence = d.sequence + 1 := by
  simp only [insertSubmission] at h
  split at h
  · cases h
  · cases h
    exact ⟨rfl, rfl⟩

theorem insertJob_sequence {id : Int} {d' : Db} {u : Unit} (h : d.insertJob id = some (d', u)) :
    d'.sequence = d.sequence := by
  unfold insertJob at h
  split at h
  · cases h
  · split at h
    · cases h
    · cases h
      rfl

theorem insertJob_spec {id : Int} {d' : Db} {u : Unit} (h : d.insertJob id = some (d', u)) :
    d.job id = none ∧ (∀ k, d'.submission k = d.submission k) ∧
      (∀ k, d'.job k = if id = k then some { submissionId := id } else d.job k) := by
  unfold insertJob at h
  split at h
  · cases h
  · split at h
    · cases h
    · rename_i hins
      cases h
      refine ⟨?_, fun _ => rfl, fun k => Table.find_insert? hins k⟩
      cases hjob : d.job id with
      | none => rfl
      | some j =>
          have hnone := Table.insert?_eq_none_iff (t := d.gradingJobs) (r := { submissionId := id })
            |>.mpr ⟨j, hjob⟩
          rw [hins] at hnone; cases hnone

end Db

end Tle.Queue
