import Tle.Queue.Connections

/-!
# The rows of the jobs

A job is claimed or not in all of its columns at once, and no submission is without a job.
-/

namespace Tle.Queue
open Tle.Lib

/-- Its status says the same as its two claim columns. -/
structure GradingJob.Coherent (j : GradingJob) : Prop where
  token : j.status = .grading ↔ j.claimToken ≠ none
  time : j.claimToken ≠ none ↔ j.claimedAt ≠ none

structure Db.JobRows (d : Db) : Prop where
  coherent : ∀ k j, d.job k = some j → j.Coherent
  covered : ∀ k s, d.submission k = some s → ∃ j, d.job k = some j

namespace GradingJob

variable {j : GradingJob}

/-- A job in another state than `grading`, with both claim columns NULL. -/
theorem Coherent.unclaimed (hstatus : j.status ≠ .grading) (htoken : j.claimToken = none)
    (htime : j.claimedAt = none) : j.Coherent :=
  ⟨by simp [hstatus, htoken], by simp [htoken, htime]⟩

theorem coherent_requeue (j : GradingJob) : j.requeue.Coherent :=
  .unclaimed (by simp [requeue]) rfl rfl

end GradingJob

namespace Db

variable {d : Db}

theorem JobRows.empty : JobRows empty := ⟨fun _ _ h => by simp at h, fun _ _ h => by cases h⟩

theorem JobRows.updateJobs {p f hf} (h : d.JobRows)
    (hcoherent : ∀ j, p j = true → (f j).Coherent) : (d.updateJobs p f hf).1.JobRows where
  coherent k j hj := by
    rw [job_updateJobs, Option.map_eq_some_iff] at hj
    obtain ⟨j₀, hj₀, rfl⟩ := hj
    split
    · rename_i hp
      exact hcoherent j₀ hp
    · exact h.coherent k j₀ hj₀
  covered k s hs := by
    obtain ⟨j, hj⟩ := h.covered k s hs
    exact ⟨_, by rw [job_updateJobs, hj]; rfl⟩

theorem JobRows.updateSubmissions {p f hf} (h : d.JobRows) :
    (d.updateSubmissions p f hf).1.JobRows where
  coherent := h.coherent
  covered k s hs := by
    rw [submission_updateSubmissions, Option.map_eq_some_iff] at hs
    obtain ⟨s₀, hs₀, -⟩ := hs
    exact h.covered k s₀ hs₀

/-! ## The statements -/

theorem JobRows.expireJobs (h : d.JobRows) (now : Int) : (d.expireJobs now).1.JobRows :=
  h.updateJobs fun j _ => j.coherent_requeue

theorem JobRows.requeueJob (h : d.JobRows) (id : BitVec 32) : (d.requeueJob id).1.JobRows :=
  h.updateJobs fun j _ => j.coherent_requeue

theorem JobRows.claimJob (h : d.JobRows) (id : BitVec 32) (token : Text) (now : Int) :
    (d.claimJob id token now).1.JobRows :=
  h.updateJobs fun _ _ => ⟨by simp, by simp⟩

theorem JobRows.finishJob (h : d.JobRows) (id : BitVec 32) (token : Text) :
    (d.finishJob id token).1.JobRows :=
  h.updateJobs fun _ _ => .unclaimed (by simp) rfl rfl

theorem JobRows.clearResult (h : d.JobRows) (id : BitVec 32) : (d.clearResult id).1.JobRows :=
  h.updateSubmissions

/-- Between its two inserts the new submission has no job yet. -/
theorem JobRows.enqueue (h : d.JobRows) {c : EnqueueCall} {d' : Db} {id : Int}
    (henqueue : d.enqueue c = some (d', id)) : d'.JobRows := by
  obtain ⟨_, _, d₁, _, h₁, h₂⟩ := enqueue_eq_some henqueue
  obtain ⟨hjobs, hsubs⟩ := insertSubmission_spec h₁
  obtain ⟨-, hsubs', hjobs'⟩ := insertJob_spec h₂
  constructor
  · intro k j hj
    rw [hjobs', hjobs] at hj
    split at hj
    · cases hj
      exact .unclaimed (by simp) rfl rfl
    · exact h.coherent k j hj
  · intro k s hs
    rw [hsubs', hsubs] at hs
    rw [hjobs', hjobs]
    split at hs
    · rename_i hk
      exact ⟨_, if_pos hk⟩
    · rename_i hk
      rw [if_neg hk]
      exact h.covered k s hs

end Db

/-! ## The calls -/

theorem Db.JobRows.enqueueSubmission {d : Db} (h : d.JobRows) (c : EnqueueCall) :
    (enqueueSubmission c (.idle d)).1.committed.JobRows := by
  cases hbegin : c.begin_ok with
  | false => rw [enqueueSubmission_not_begun hbegin]; exact h
  | true =>
      obtain ⟨-, d', a, hbody, heq⟩ | ⟨-, hcommitted, -⟩ :=
        (enqueueSubmission_ends (d := d) hbegin).cases
      · obtain ⟨⟨d₂, id⟩, hinserts, heq'⟩ := Option.map_eq_some_iff.mp hbody
        cases heq'
        rw [heq]
        exact h.enqueue hinserts
      · rw [hcommitted]
        exact h

theorem Db.JobRows.claimSubmission {d : Db} (h : d.JobRows) (c : ClaimCall) :
    (claimSubmission c (.idle d)).1.committed.JobRows := by
  obtain ⟨row, code, d', -, hclaim, heq⟩ | ⟨hcommitted, -⟩ := claimSubmission_cases c d
  · have hexpired : (d.afterExpiry c).JobRows := by
      unfold Db.afterExpiry
      split
      · exact h.expireJobs c.expiryNow
      · exact h
    have hrows := hexpired.claimJob (columnInt row.submissionId) c.token c.claimNow
    rw [hclaim] at hrows
    rw [heq]
    exact hrows
  · rw [hcommitted]
    exact h

theorem Db.JobRows.completeSubmission {d : Db} (h : d.JobRows) (c : CompleteCall) :
    (completeSubmission c (.idle d)).1.committed.JobRows := by
  obtain ⟨-, -, heq⟩ | ⟨-, hcommitted, -⟩ := completeSubmission_cases c d
  · rw [heq]
    exact (h.finishJob c.id c.token).updateSubmissions
  · rw [hcommitted]
    exact h

theorem Db.JobRows.step {s : System} (h : s.db.JobRows) (a : Action) : (s.step a).db.JobRows := by
  cases a with
  | enqueue c => exact h.enqueueSubmission c
  | claim c => exact h.claimSubmission c
  | complete c => exact h.completeSubmission c
  | requeueJob web id ok =>
      simp only [System.step, requeueFirst_idle]
      cases ok with
      | false => exact h
      | true => exact h.requeueJob id
  | requeueClear web ok =>
      simp only [System.step, requeueSecond_idle]
      cases s.pending web with
      | none => exact h
      | some id =>
          cases ok with
          | false => exact h
          | true => exact h.clearResult id

theorem jobRows (as : List Action) : (after as).db.JobRows :=
  run_keeps (P := fun s : System => s.db.JobRows) .empty (fun _ a h => Db.JobRows.step h a) as

end Tle.Queue
