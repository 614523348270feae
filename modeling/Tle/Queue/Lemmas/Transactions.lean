import Tle.Queue.Lemmas.Calls

/-!
# The connection after a call
-/

namespace Tle.Queue
open Tle.Lib

/-- The connection is outside any transaction, so that the next one can begin, and a call that reports
failure has left the committed tables `d` as they were. -/
structure LeavesClean {α : Type} (failed : α) (d : Db) (r : Session × α) : Prop where
  outside : r.1.txn = none
  next : (r.1.beginImmediate true).isSome = true
  unchanged : r.2 = failed → r.1.committed = d

/-! ## When it does -/

/-- A call that opens its transaction ends it with the statement that does not fail; and the id that
`enqueue_submission` returns does not read as `-1`. -/
def EnqueueCall.Settles (c : EnqueueCall) (d : Db) : Prop :=
  c.begin_ok = true →
    if (d.enqueue c).isSome then c.commit_ok = true ∧ toInt32 (d.sequence + 1) ≠ -1
    else c.rollback_ok = true

def ClaimCall.Settles (c : ClaimCall) (d : Db) : Prop :=
  c.opens = true → if (d.claim c).isSome then c.commit_ok = true else c.rollback_ok = true

def CompleteCall.Settles (c : CompleteCall) (d : Db) : Prop :=
  c.begin_ok = true → if c.stores d then c.commit_ok = true else c.rollback_ok = true

/-! ## Each call -/

namespace LeavesClean

variable {α : Type} {failed : α} {d : Db}

theorem of_outside {r : Session × α} (htxn : r.1.txn = none)
    (hsame : r.2 = failed → r.1.committed = d) : LeavesClean failed d r :=
  ⟨htxn, by simp [Session.beginImmediate, htxn], hsame⟩

theorem idle (a : α) : LeavesClean failed d (.idle d, a) := of_outside rfl fun _ => rfl

theorem iff_of_ends {commit_ok rollback_ok : Bool} {refused : α → Prop} {body : Option (Db × α)}
    {r : Session × α} (h : Session.Ends d commit_ok rollback_ok failed refused body r)
    (hreply : ∀ p, body = some p → p.2 ≠ failed) :
    LeavesClean failed d r ↔ if body.isSome then commit_ok = true else rollback_ok = true := by
  rw [← h.txn_eq_none_iff]
  refine ⟨LeavesClean.outside, fun htxn => of_outside htxn fun hfailed => ?_⟩
  obtain ⟨-, d', a, hbody, rfl⟩ | ⟨-, hcommitted, -⟩ := h.cases
  · exact absurd hfailed (hreply _ hbody)
  · exact hcommitted

end LeavesClean

theorem enqueue_sequence {c : EnqueueCall} {d d' : Db} {id : Int} (h : d.enqueue c = some (d', id)) :
    id = d.sequence + 1 ∧ d' ≠ d := by
  obtain ⟨_, _, d₁, _, h₁, h₂⟩ := enqueue_eq_some h
  obtain ⟨hid, hsequence⟩ := Db.insertSubmission_sequence h₁
  refine ⟨hid, fun heq => ?_⟩
  have hnext : d'.sequence = d.sequence + 1 := (Db.insertJob_sequence h₂).trans hsequence
  rw [heq] at hnext
  omega

theorem enqueueSubmission_leavesClean (c : EnqueueCall) (d : Db) :
    LeavesClean (-1) d (enqueueSubmission c (.idle d)) ↔ c.Settles d := by
  unfold EnqueueCall.Settles
  cases hbegin : c.begin_ok with
  | false =>
      rw [enqueueSubmission_not_begun hbegin]
      simp [LeavesClean.idle]
  | true =>
      have hends := enqueueSubmission_ends (d := d) hbegin
      cases hinserts : d.enqueue c with
      | none =>
          rw [hinserts] at hends
          simpa using LeavesClean.iff_of_ends hends (by simp)
      | some p =>
          obtain ⟨d', id⟩ := p
          obtain ⟨rfl, hne⟩ := enqueue_sequence hinserts
          rw [hinserts] at hends
          by_cases hid : toInt32 (d.sequence + 1) = -1
          · -- the id of the row that has just been committed reads as a failure
            simp only [Option.isSome_some, ↓reduceIte, hid, ne_eq, not_true_eq_false, and_false,
              forall_const, iff_false]
            intro hclean
            have hcommit : c.commit_ok = true := by simpa using hends.txn_eq_none_iff.mp hclean.outside
            have heq : enqueueSubmission c (.idle d) = (.idle d', -1) := by
              simpa [Session.Ends, hcommit, hid] using hends
            exact hne (by simpa [heq] using hclean.unchanged (by rw [heq]))
          · simpa [hid] using LeavesClean.iff_of_ends hends (by simp [hid])

theorem claimSubmission_leavesClean (c : ClaimCall) (d : Db) :
    LeavesClean .failed d (claimSubmission c (.idle d)) ↔ c.Settles d := by
  unfold ClaimCall.Settles
  cases hopens : c.opens with
  | false =>
      rw [claimSubmission_not_opened hopens]
      simp [LeavesClean.idle]
  | true =>
      have hreply : ∀ p, (d.claim c).map (fun p => (p.1, ClaimReply.claimed p.2)) = some p →
          p.2 ≠ .failed := by
        intro p hp
        obtain ⟨q, -, rfl⟩ := Option.map_eq_some_iff.mp hp
        simp
      simpa using LeavesClean.iff_of_ends (claimSubmission_ends hopens) hreply

theorem completeSubmission_leavesClean (c : CompleteCall) (d : Db) :
    LeavesClean (-1) d (completeSubmission c (.idle d)) ↔ c.Settles d := by
  unfold CompleteCall.Settles
  cases hbegin : c.begin_ok with
  | false =>
      rw [completeSubmission_not_begun hbegin]
      simp [LeavesClean.idle]
  | true =>
      have hends := LeavesClean.iff_of_ends (completeSubmission_ends (d := d) hbegin)
        (by split <;> simp)
      cases hstores : c.stores d <;> simpa [hstores] using hends

end Tle.Queue
