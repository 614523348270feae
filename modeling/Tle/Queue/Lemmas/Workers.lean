import Tle.Queue.Lemmas.Submissions
import Tle.Queue.Workers

/-!
# What a step of the workers does to the row of a submission
-/

namespace Tle.Queue
open Tle.Lib

/-- The columns that `enqueue_submission` writes. -/
def Submission.source (s : Submission) : Int × Option Int × Int × Option Text × Int :=
  (s.submissionId, s.userId, s.taskPk, s.code, s.isPublic)

@[simp] theorem Submission.source_withReport (r : Report) (s : Submission) :
    (s.withReport r).source = s.source := rfl

@[simp] theorem Submission.source_withoutResult (s : Submission) : s.withoutResult.source = s.source := rfl

/-- What a call does to the row under the key `k`. -/
inductive RowStep (a : Call) (k : Int) : Option Submission → Option Submission → Prop where
  | same (row : Option Submission) : RowStep a k row row
  | inserted (c : EnqueueCall) (ha : a = .enqueue c) : RowStep a k none (some (c.row k))
  | reported (c : CompleteCall) (row : Submission) (ha : a = .complete c) (hk : rowKey c.id = k) :
      RowStep a k (some row) (some (row.withReport c.report))
  | cleared (row : Submission) : RowStep a k (some row) (some row.withoutResult)

namespace RowStep

variable {a : Call} {k : Int} {row row' : Option Submission}

theorem of_eq (h : row' = row) : RowStep a k row row' := by
  rw [h]
  exact same row

/-- A row keeps the columns it was inserted with. -/
theorem source {row₀ : Submission} (h : RowStep a k row row') (hrow : row = some row₀) :
    ∃ row₁, row' = some row₁ ∧ row₁.source = row₀.source := by
  cases h with
  | same => exact ⟨row₀, hrow, rfl⟩
  | inserted => cases hrow
  | reported c row => cases hrow; exact ⟨_, rfl, rfl⟩
  | cleared row => cases hrow; exact ⟨_, rfl, rfl⟩

end RowStep

/-! ## The calls on an idle connection -/

section Idle

variable {d : Db} {k : Int}

theorem sequence_afterExpiry (c : ClaimCall) : (d.afterExpiry c).sequence = d.sequence := by
  unfold Db.afterExpiry
  split <;> rfl

theorem submission_claimSubmission (c : ClaimCall) :
    (claimSubmission c (.idle d)).1.committed.submission k = d.submission k ∧
      (claimSubmission c (.idle d)).1.committed.sequence = d.sequence := by
  obtain ⟨row, code, d', -, hclaim, heq⟩ | ⟨hcommitted, -⟩ := claimSubmission_cases c d
  · have hd' : d' = ((d.afterExpiry c).claimJob (columnInt row.submissionId) c.token c.claimNow).1 := by
      rw [hclaim]
    rw [heq, Session.idle_committed, hd']
    constructor
    · unfold Db.afterExpiry
      split <;> rfl
    · exact sequence_afterExpiry c
  · rw [hcommitted]
    exact ⟨rfl, rfl⟩

theorem rowStep_enqueue (c : EnqueueCall) : RowStep (.enqueue c) k (d.submission k)
    ((enqueueSubmission c (.idle d)).1.committed.submission k) := by
  by_cases hstores : c.stores (.idle d) = true
  · obtain ⟨d', id, henqueue, heq⟩ := enqueueSubmission_of_stores hstores
    obtain ⟨hnone, hrows⟩ := submission_enqueue henqueue
    rw [heq, Session.idle_committed, hrows]
    split
    · rename_i hk
      subst hk
      rw [show d.submission id = none from hnone]
      exact .inserted c rfl
    · exact .same _
  · rw [enqueueSubmission_of_not_stores hstores]
    exact .same _

theorem rowStep_complete (c : CompleteCall) : RowStep (.complete c) k (d.submission k)
    ((completeSubmission c (.idle d)).1.committed.submission k) := by
  obtain ⟨-, -, heq⟩ | ⟨-, hcommitted, -⟩ := completeSubmission_cases c d
  · have hsub : (d.complete c).submission k =
        if k = rowKey c.id then (d.submission k).map (Submission.withReport c.report) else d.submission k :=
      Db.submission_storeResult
    rw [heq, Session.idle_committed, hsub]
    split
    · rename_i hk
      cases d.submission k with
      | none => exact .same _
      | some row => exact .reported c row rfl hk.symm
    · exact .same _
  · rw [hcommitted]
    exact .same _

theorem rowStep_clear (a : Call) (ok : Bool) (id : BitVec 32) : RowStep a k (d.submission k)
    ((requeueSecond ok id (.idle d)).1.committed.submission k) := by
  rw [requeueSecond_idle]
  cases ok with
  | false => exact .same _
  | true =>
      simp only [↓reduceIte, Session.idle_committed, Db.submission_clearResult]
      split
      · cases d.submission k with
        | none => exact .same _
        | some row => exact .cleared row
      · exact .same _

theorem sequence_completeSubmission (c : CompleteCall) :
    (completeSubmission c (.idle d)).1.committed.sequence = d.sequence := by
  obtain ⟨-, -, heq⟩ | ⟨-, hcommitted, -⟩ := completeSubmission_cases c d
  · rw [heq]
    rfl
  · rw [hcommitted]

end Idle

/-! ## The connections -/

namespace Connections

variable {s : Connections} {p : Nat}

theorem step_db_of_open {d' : Db} (htxn : s.txn p = some d') (a : Call) : (s.step (p, a)).db = s.db := by
  have hsession : s.session p = ⟨s.db, some d'⟩ := by simp [session, htxn]
  cases a with
  | enqueue c => simp only [step, hsession, enqueueSubmission_open, use]
  | claim c => simp only [step, hsession, claimSubmission_open, use]
  | complete c => simp only [step, hsession, completeSubmission_open, use]
  | requeueJob id ok =>
      obtain ⟨d'', heq⟩ := requeueFirst_open s.db d' ok id
      simp only [step, hsession, heq, use, hold]
  | requeueClear ok =>
      simp only [step, hsession]
      split
      · rfl
      · rename_i id _
        obtain ⟨d'', heq⟩ := requeueSecond_open s.db d' ok id
        simp only [heq, use, hold]
  | restart => rfl

theorem session_of_idle (htxn : s.txn p = none) : s.session p = .idle s.db := by
  simp [session, htxn, Session.idle]

theorem rowStep (s : Connections) (p : Nat) (a : Call) (k : Int) :
    RowStep a k (s.db.submission k) ((s.step (p, a)).db.submission k) := by
  cases htxn : s.txn p with
  | some d' => exact .of_eq (by rw [step_db_of_open htxn])
  | none =>
      have hsession := session_of_idle htxn
      cases a with
      | enqueue c =>
          simp only [step, hsession, use]
          exact rowStep_enqueue c
      | claim c =>
          simp only [step, hsession, use]
          exact .of_eq (submission_claimSubmission c).1
      | complete c =>
          simp only [step, hsession, use]
          exact rowStep_complete c
      | requeueJob id ok =>
          simp only [step, hsession, use, hold, requeueFirst_idle]
          cases ok <;> exact .same _
      | requeueClear ok =>
          simp only [step, hsession]
          split
          · exact .same _
          · simp only [use, hold]
            exact rowStep_clear _ ok _
      | restart => exact .same _

theorem sequence_step (s : Connections) (a : Nat × Call) : s.db.sequence ≤ (s.step a).db.sequence := by
  obtain ⟨p, a⟩ := a
  cases htxn : s.txn p with
  | some d' => rw [step_db_of_open htxn]
  | none =>
      have hsession := session_of_idle htxn
      cases a with
      | enqueue c =>
          simp only [step, hsession, use]
          exact (Db.Extends.enqueueSubmission s.db c).sequence
      | claim c =>
          simp only [step, hsession, use]
          exact (submission_claimSubmission (k := 0) c).2.ge
      | complete c =>
          simp only [step, hsession, use]
          exact (sequence_completeSubmission c).ge
      | requeueJob id ok =>
          simp only [step, hsession, use, hold, requeueFirst_idle]
          cases ok <;> exact le_refl _
      | requeueClear ok =>
          simp only [step, hsession]
          split
          · exact le_refl _
          · simp only [use, hold, requeueSecond_idle]
            cases ok <;> exact le_refl _
      | restart => exact le_refl _

end Connections

/-! ## The workers -/

theorem numbered_workers (as : List (Nat × Turn)) : (workersAfter as).conns.db.Numbered := by
  obtain ⟨bs, hbs⟩ := workersAfter_conns as
  obtain ⟨cs, hcs⟩ := connectionsAfter_db bs
  rw [hbs, hcs]
  exact numbered_after cs

theorem Workers.sequence_step (w : Workers) (a : Nat × Turn) :
    w.conns.db.sequence ≤ (w.step a).conns.db.sequence := by
  obtain hsame | ⟨c, hc, -⟩ := w.conns_step a
  · rw [hsame]
  · rw [hc]
    exact Connections.sequence_step w.conns (a.1, c)

end Tle.Queue
