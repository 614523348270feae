import Tle.Queue.Lemmas.Statements

/-!
# What one call can do, from a connection outside any transaction

A call that gets its transaction ends it with `COMMIT` when all its statements go through and with
`ROLLBACK` otherwise. Either it commits all of them or it leaves the committed tables as they were.
-/

namespace Tle.Queue
open Tle.Lib

namespace Session

@[simp] theorem rollback_committed (ok : Bool) (s : Session) : (s.rollback ok).committed = s.committed :=
  rfl

theorem rollback_txn {ok : Bool} {d d' : Db} :
    ((⟨d, some d'⟩ : Session).rollback ok).txn = none ↔ ok = true := by
  cases ok <;> simp [rollback]

/-- How a call ends that has opened its transaction on `d`: `body` is what its statements have done
to the tables and the reply they call for, or `none` when one of them did not go through. -/
def Ends {α : Type} (d : Db) (commit_ok rollback_ok : Bool) (failed : α) (refused : α → Prop) :
    Option (Db × α) → Session × α → Prop
  | some (d', a), r => r = if commit_ok then (idle d', a) else (⟨d, some d'⟩, failed)
  | none, r => ∃ d' a, refused a ∧ r = ((⟨d, some d'⟩ : Session).rollback rollback_ok, a)

variable {α : Type} {d : Db} {commit_ok rollback_ok : Bool} {failed : α} {refused : α → Prop}
  {body : Option (Db × α)} {r : Session × α}

/-- The two ways a call leaves the committed tables. -/
theorem Ends.cases (h : Ends d commit_ok rollback_ok failed refused body r) :
    (commit_ok = true ∧ ∃ d' a, body = some (d', a) ∧ r = (idle d', a)) ∨
    ((commit_ok = false ∨ body = none) ∧ r.1.committed = d ∧ (r.2 = failed ∨ refused r.2)) := by
  cases body with
  | none =>
      obtain ⟨d', a, ha, rfl⟩ := h
      exact Or.inr ⟨Or.inr rfl, rfl, Or.inr ha⟩
  | some p =>
      obtain ⟨d', a⟩ := p
      have hr : r = if commit_ok then (idle d', a) else (⟨d, some d'⟩, failed) := h
      cases commit_ok with
      | true => exact Or.inl ⟨rfl, d', a, rfl, hr⟩
      | false => subst hr; exact Or.inr ⟨Or.inl rfl, rfl, Or.inl rfl⟩

/-- The connection is outside any transaction again exactly when the last statement of the call has
not failed. -/
theorem Ends.txn_eq_none_iff (h : Ends d commit_ok rollback_ok failed refused body r) :
    r.1.txn = none ↔ if body.isSome then commit_ok = true else rollback_ok = true := by
  cases body with
  | none =>
      obtain ⟨d', a, -, rfl⟩ := h
      exact rollback_txn
  | some p =>
      have hr : r = if commit_ok then (idle p.1, p.2) else (⟨d, some p.1⟩, failed) := h
      subst hr
      cases commit_ok <;> simp [idle]

end Session

/-! ## `enqueue_submission` -/

/-- Both inserts. -/
def Db.enqueue (d : Db) (c : EnqueueCall) : Option (Db × Int) :=
  if c.insertSubmission_ok then
    (d.insertSubmission (if c.userId < 0 then none else some c.userId) c.taskPk.toInt c.code
        (if c.isPublic then 1 else 0)).bind fun p =>
      if c.insertJob_ok then (p.1.insertJob p.2).map fun q => (q.1, p.2) else none
  else none

theorem enqueueSubmission_not_begun {c : EnqueueCall} {d : Db} (h : c.begin_ok = false) :
    enqueueSubmission c (.idle d) = (.idle d, -1) := by
  simp [enqueueSubmission, Session.beginImmediate, h]

theorem enqueueSubmission_ends {c : EnqueueCall} {d : Db} (h : c.begin_ok = true) :
    Session.Ends d c.commit_ok c.rollback_ok (-1) (· = -1)
      ((d.enqueue c).map fun p => (p.1, toInt32 p.2)) (enqueueSubmission c (.idle d)) := by
  obtain ⟨userId, taskPk, code, isPublic, bBegin, bSub, bJob, bCommit, bRollback⟩ := c
  cases h
  cases bSub
  · exact ⟨d, -1, rfl, rfl⟩
  simp only [enqueueSubmission, Db.enqueue, Session.idle, Session.beginImmediate, Session.exec,
    Session.view, Option.getD_some, ↓reduceIte]
  generalize (if userId < 0 then none else some userId) = user
  generalize (if isPublic then 1 else 0 : Int) = pub
  cases h₁ : d.insertSubmission user taskPk.toInt code pub with
  | none => exact ⟨d, -1, rfl, rfl⟩
  | some p =>
      obtain ⟨d₁, id⟩ := p
      cases bJob
      · exact ⟨d₁, -1, rfl, rfl⟩
      simp only [Option.getD_some, Option.bind_some, ↓reduceIte]
      cases h₂ : d₁.insertJob id with
      | none => exact ⟨d₁, -1, rfl, rfl⟩
      | some q => cases bCommit <;> rfl

theorem enqueue_eq_some {c : EnqueueCall} {d d₂ : Db} {id : Int} (h : d.enqueue c = some (d₂, id)) :
    ∃ userId isPublic d₁ u, d.insertSubmission userId c.taskPk.toInt c.code isPublic = some (d₁, id) ∧
      d₁.insertJob id = some (d₂, u) := by
  unfold Db.enqueue at h
  split at h
  · obtain ⟨p, hp, h⟩ := Option.bind_eq_some_iff.mp h
    split at h
    · obtain ⟨q, hq, heq⟩ := Option.map_eq_some_iff.mp h
      cases heq
      exact ⟨_, _, p.1, q.2, hp, hq⟩
    · cases h
  · cases h

theorem insertSubmission_ok_of_enqueue {c : EnqueueCall} {d : Db} {p : Db × Int} (h : d.enqueue c = some p) :
    c.insertSubmission_ok = true := by
  unfold Db.enqueue at h
  split at h
  · assumption
  · cases h

/-- The row that `enqueue_submission` inserts. -/
def EnqueueCall.row (c : EnqueueCall) (id : Int) : Submission where
  submissionId := id
  userId := if c.userId < 0 then none else some c.userId
  taskPk := c.taskPk.toInt
  code := c.code
  isPublic := if c.isPublic then 1 else 0

theorem submission_enqueue {c : EnqueueCall} {d d' : Db} {id : Int} (h : d.enqueue c = some (d', id)) :
    d.submission id = none ∧
      ∀ k, d'.submission k = if id = k then some (c.row id) else d.submission k := by
  unfold Db.enqueue at h
  split at h
  · obtain ⟨⟨d₁, id₁⟩, hsub, h⟩ := Option.bind_eq_some_iff.mp h
    split at h
    · obtain ⟨⟨d₂, u⟩, hjob, heq⟩ := Option.map_eq_some_iff.mp h
      cases heq
      obtain ⟨-, hsame, -⟩ := Db.insertJob_spec hjob
      obtain ⟨-, hrow⟩ := Db.insertSubmission_spec hsub
      exact ⟨Db.insertSubmission_fresh hsub, fun k => (hsame k).trans (hrow k)⟩
    · cases h
  · cases h

theorem enqueueSubmission_cases (c : EnqueueCall) (d : Db) :
    (∃ userId isPublic d₁ d₂ id u,
      d.insertSubmission userId c.taskPk.toInt c.code isPublic = some (d₁, id) ∧
      d₁.insertJob id = some (d₂, u) ∧
      enqueueSubmission c (.idle d) = (.idle d₂, toInt32 id)) ∨
    ((enqueueSubmission c (.idle d)).1.committed = d ∧ (enqueueSubmission c (.idle d)).2 = -1) := by
  cases hbegin : c.begin_ok with
  | false =>
      rw [enqueueSubmission_not_begun hbegin]
      exact Or.inr ⟨rfl, rfl⟩
  | true =>
      obtain ⟨-, d', a, hbody, heq⟩ | ⟨-, hcommitted, hreply⟩ :=
        (enqueueSubmission_ends (d := d) hbegin).cases
      · obtain ⟨⟨d₂, id⟩, hinserts, heq'⟩ := Option.map_eq_some_iff.mp hbody
        cases heq'
        obtain ⟨user, pub, d₁, u, h₁, h₂⟩ := enqueue_eq_some hinserts
        exact Or.inl ⟨user, pub, d₁, d₂, id, u, h₁, h₂, heq⟩
      · exact Or.inr ⟨hcommitted, hreply.elim id id⟩

/-- The call commits both inserts. -/
def EnqueueCall.stores (c : EnqueueCall) (s : Session) : Bool :=
  c.begin_ok && s.txn.isNone && (s.committed.enqueue c).isSome && c.commit_ok

theorem enqueueSubmission_of_stores {c : EnqueueCall} {s : Session} (h : c.stores s = true) :
    ∃ d id, s.committed.enqueue c = some (d, id) ∧ (enqueueSubmission c s).1 = .idle d := by
  obtain ⟨d, txn⟩ := s
  simp only [EnqueueCall.stores, Bool.and_eq_true, Option.isNone_iff_eq_none] at h
  obtain ⟨⟨⟨hbegin, rfl⟩, hinserts⟩, hcommit⟩ := h
  obtain ⟨⟨d', id⟩, henqueue⟩ := Option.isSome_iff_exists.mp hinserts
  have hends := enqueueSubmission_ends (d := d) hbegin
  simp only [henqueue, Option.map_some, Session.Ends, hcommit, ↓reduceIte] at hends
  exact ⟨d', id, henqueue, congrArg Prod.fst hends⟩

theorem enqueueSubmission_of_not_stores {c : EnqueueCall} {s : Session} (h : ¬c.stores s = true) :
    (enqueueSubmission c s).1.committed = s.committed := by
  obtain ⟨d, _ | d'⟩ := s
  · cases hbegin : c.begin_ok with
    | false => exact congrArg (·.1.committed) (enqueueSubmission_not_begun (d := d) hbegin)
    | true =>
        obtain ⟨hcommit, d', id, hbody, -⟩ | ⟨-, hcommitted, -⟩ :=
          (enqueueSubmission_ends (d := d) hbegin).cases
        · obtain ⟨p, hp, -⟩ := Option.map_eq_some_iff.mp hbody
          simp [EnqueueCall.stores, hbegin, hcommit, hp] at h
        · exact hcommitted
  · simp [enqueueSubmission, Session.beginImmediate]

/-! ## `claim_submission` -/

/-- The tables the transaction of a claim sees once the expiry has run. -/
def Db.afterExpiry (d : Db) (c : ClaimCall) : Db :=
  if c.expire_ok then (d.expireJobs c.expiryNow).1 else d

/-- The statements of a claim, when they find a job and mark its row. -/
def Db.claim (d : Db) (c : ClaimCall) : Option (Db × SubmissionJob) :=
  if c.prepare_ok && c.select_ok then
    (d.afterExpiry c).nextQueued.bind fun p =>
      let job := SubmissionJob.read c.token p.1 p.2
      let claimed := (d.afterExpiry c).claimJob job.submissionId c.token c.claimNow
      if c.strdup_ok && c.claim_ok && claimed.2 = 1 then some (claimed.1, job) else none
  else none

def ClaimCall.opens (c : ClaimCall) : Bool := c.clock_ok && c.begin_ok

theorem claimSubmission_not_opened {c : ClaimCall} {d : Db} (h : c.opens = false) :
    claimSubmission c (.idle d) = (.idle d, .failed) := by
  obtain hclock | hbegin := Bool.and_eq_false_iff.mp h
  · simp [claimSubmission, hclock]
  · simp [claimSubmission, Session.beginImmediate, hbegin]

theorem claimSubmission_ends {c : ClaimCall} {d : Db} (h : c.opens = true) :
    Session.Ends d c.commit_ok c.rollback_ok .failed (fun a => a = .failed ∨ a = .nothing)
      ((d.claim c).map fun p => (p.1, .claimed p.2)) (claimSubmission c (.idle d)) := by
  obtain ⟨token, expiryNow, claimNow, bClock, bBegin, bExpire, bPrepare, bSelect, bStrdup, bClaim,
    bCommit, bRollback⟩ := c
  obtain ⟨rfl, rfl⟩ := Bool.and_eq_true_iff.mp h
  have hexpire : (Session.exec bExpire (fun d => some (d.expireJobs expiryNow)) ⟨d, some d⟩).1 =
      ⟨d, some (if bExpire then (d.expireJobs expiryNow).1 else d)⟩ := by
    cases bExpire <;> rfl
  simp only [claimSubmission, Session.idle, Session.beginImmediate, hexpire, Session.view,
    Option.getD_some, Db.claim, Db.afterExpiry, Bool.not_true, Bool.false_eq_true, ↓reduceIte]
  generalize (if bExpire then (d.expireJobs expiryNow).1 else d) = d₁
  cases bPrepare
  · exact ⟨d₁, .failed, Or.inl rfl, rfl⟩
  cases bSelect
  · exact ⟨d₁, .nothing, Or.inr rfl, rfl⟩
  cases hnext : d₁.nextQueued with
  | none => exact ⟨d₁, .nothing, Or.inr rfl, rfl⟩
  | some p =>
      obtain ⟨row, code⟩ := p
      cases bStrdup
      · exact ⟨d₁, .failed, Or.inl rfl, rfl⟩
      cases bClaim
      · exact ⟨d₁, .failed, Or.inl rfl, rfl⟩
      simp only [Session.exec, Session.view, Option.getD_some, Bool.not_true, Bool.false_eq_true,
        ↓reduceIte, Bool.and_self, Option.bind_some, Bool.true_and]
      rcases hclaim : d₁.claimJob (SubmissionJob.read token row code).submissionId token claimNow
        with ⟨d', n⟩
      by_cases hn : n = 1
      · subst hn
        cases bCommit <;> rfl
      · simp only [hn, decide_false, Bool.false_eq_true, ↓reduceIte, Option.map_none]
        refine ⟨d', .failed, Or.inl rfl, ?_⟩
        split
        · rename_i heq; cases heq; exact absurd rfl hn
        · rename_i _ heq; cases heq; rfl

theorem claim_eq_some {c : ClaimCall} {d d' : Db} {job : SubmissionJob} (h : d.claim c = some (d', job)) :
    ∃ row code, (d.afterExpiry c).nextQueued = some (row, code) ∧
      (d.afterExpiry c).claimJob (columnInt row.submissionId) c.token c.claimNow = (d', 1) ∧
      job = .read c.token row code := by
  unfold Db.claim at h
  split at h
  · obtain ⟨⟨row, code⟩, hnext, h⟩ := Option.bind_eq_some_iff.mp h
    dsimp only at h
    split at h
    · rename_i hok
      cases h
      refine ⟨row, code, hnext, ?_, rfl⟩
      exact Prod.ext rfl (of_decide_eq_true (Bool.and_eq_true_iff.mp hok).2)
    · cases h
  · cases h

theorem claimSubmission_cases (c : ClaimCall) (d : Db) :
    (∃ row code d', (d.afterExpiry c).nextQueued = some (row, code) ∧
      (d.afterExpiry c).claimJob (columnInt row.submissionId) c.token c.claimNow = (d', 1) ∧
      claimSubmission c (.idle d) = (.idle d', .claimed (.read c.token row code))) ∨
    ((claimSubmission c (.idle d)).1.committed = d ∧
      ∀ job, (claimSubmission c (.idle d)).2 ≠ .claimed job) := by
  cases hopens : c.opens with
  | false =>
      rw [claimSubmission_not_opened hopens]
      exact Or.inr ⟨rfl, by simp⟩
  | true =>
      obtain ⟨-, _, a, hbody, heq⟩ | ⟨-, hcommitted, hreply⟩ :=
        (claimSubmission_ends (d := d) hopens).cases
      · obtain ⟨⟨d', job⟩, hstatements, heq'⟩ := Option.map_eq_some_iff.mp hbody
        cases heq'
        obtain ⟨row, code, hnext, hclaim, rfl⟩ := claim_eq_some hstatements
        exact Or.inl ⟨row, code, d', hnext, hclaim, heq⟩
      · refine Or.inr ⟨hcommitted, ?_⟩
        rcases hreply with h | h | h <;> simp [h]

/-! ## `complete_submission` -/

def CompleteCall.allOk (c : CompleteCall) : Bool :=
  c.begin_ok && c.finishJob_ok && c.storeResult_ok && c.commit_ok

/-- The tables after both updates of a completion. -/
def Db.complete (d : Db) (c : CompleteCall) : Db :=
  ((d.finishJob c.id c.token).1.storeResult c.id c.report).1

/-- Both updates go through, the first one on a row. -/
def CompleteCall.stores (c : CompleteCall) (d : Db) : Bool :=
  c.finishJob_ok && d.held c.id c.token && c.storeResult_ok

theorem completeSubmission_not_begun {c : CompleteCall} {d : Db} (h : c.begin_ok = false) :
    completeSubmission c (.idle d) = (.idle d, -1) := by
  simp [completeSubmission, Session.beginImmediate, h]

theorem completeSubmission_ends {c : CompleteCall} {d : Db} (h : c.begin_ok = true) :
    Session.Ends d c.commit_ok c.rollback_ok (-1) (· = -1)
      (if c.stores d then some (d.complete c, 0) else none) (completeSubmission c (.idle d)) := by
  obtain ⟨id, report, token, bBegin, bFinish, bStore, bCommit, bRollback⟩ := c
  cases h
  cases bFinish
  · exact ⟨d, -1, rfl, rfl⟩
  simp only [completeSubmission, CompleteCall.stores, Session.idle, Session.beginImmediate,
    Session.exec, Session.view, Option.getD_some, Db.complete, Bool.true_and]
  have hchanges := @Db.changes_finishJob d id token
  rcases hfinish : d.finishJob id token with ⟨d₁, n⟩
  rw [hfinish] at hchanges
  cases hheld : d.held id token with
  | false =>
      simp only [hheld, Bool.false_eq_true, ↓reduceIte] at hchanges
      subst hchanges
      exact ⟨d₁, -1, rfl, rfl⟩
  | true =>
      simp only [hheld, ↓reduceIte] at hchanges
      subst hchanges
      cases bStore
      · exact ⟨d₁, -1, rfl, rfl⟩
      · cases bCommit <;> rfl

theorem completeSubmission_cases (c : CompleteCall) (d : Db) :
    (c.allOk = true ∧ d.held c.id c.token = true ∧
      completeSubmission c (.idle d) = (.idle (d.complete c), 0)) ∨
    ((c.allOk && d.held c.id c.token) = false ∧ (completeSubmission c (.idle d)).1.committed = d ∧
      (completeSubmission c (.idle d)).2 = -1) := by
  cases hbegin : c.begin_ok with
  | false =>
      rw [completeSubmission_not_begun hbegin]
      exact Or.inr ⟨by simp [CompleteCall.allOk, hbegin], rfl, rfl⟩
  | true =>
      obtain ⟨hcommit, d', a, hbody, heq⟩ | ⟨hnot, hcommitted, hreply⟩ :=
        (completeSubmission_ends (d := d) hbegin).cases
      · obtain ⟨hstores, hbody⟩ := Option.ite_none_right_eq_some.mp hbody
        cases hbody
        simp only [CompleteCall.stores, Bool.and_eq_true] at hstores
        obtain ⟨⟨hfinish, hheld⟩, hstore⟩ := hstores
        exact Or.inl ⟨by simp [CompleteCall.allOk, hbegin, hfinish, hstore, hcommit], hheld, heq⟩
      · refine Or.inr ⟨?_, hcommitted, hreply.elim id id⟩
        rcases hnot with hcommit | hbody
        · simp [CompleteCall.allOk, hcommit]
        · have hstores : c.stores d ≠ true := fun h => by simp [h] at hbody
          refine Bool.eq_false_iff.mpr fun h => hstores ?_
          simp only [CompleteCall.allOk, Bool.and_eq_true] at h
          simp [CompleteCall.stores, h]

/-! ## `requeue_submission` -/

theorem requeueFirst_idle (ok : Bool) (id : BitVec 32) (d : Db) : requeueFirst ok id (.idle d) =
    if ok then (.idle (d.requeueJob id).1, some (d.requeueJob id).2) else (.idle d, none) := by
  cases ok <;> rfl

theorem requeueSecond_idle (ok : Bool) (id : BitVec 32) (d : Db) : requeueSecond ok id (.idle d) =
    if ok then (.idle (d.clearResult id).1, 1) else (.idle d, -1) := by
  cases ok <;> rfl

theorem requeueSubmission_of_changed {first_ok second_ok : Bool} {id : BitVec 32} {s s' : Session} {n : Nat}
    (h : requeueFirst first_ok id s = (s', some (n + 1))) :
    requeueSubmission first_ok second_ok id s = requeueSecond second_ok id s' := by
  simp only [requeueSubmission, h]

theorem exec_committed {α : Type} (ok : Bool) (stmt : Db → Option (Db × α)) (s : Session) :
    (s.exec ok stmt).1.committed = s.committed ∨
      ∃ d a, stmt s.committed = some (d, a) ∧ (s.exec ok stmt).1.committed = d := by
  obtain ⟨d, txn⟩ := s
  unfold Session.exec
  split
  · rename_i d' a hstmt
    rcases txn with _ | d₁
    · exact Or.inr ⟨d', a, hstmt, rfl⟩
    · exact Or.inl rfl
  · exact Or.inl rfl

/-- No statement of `requeue_submission` stores a row. -/
theorem requeueSubmission_inserts_nothing (first_ok second_ok : Bool) (id : BitVec 32) (s : Session) {k : Int}
    (h : s.committed.submission k = none) :
    (requeueSubmission first_ok second_ok id s).1.committed.submission k = none := by
  have hfirst : (requeueFirst first_ok id s).1.committed.submission k = none := by
    obtain hsame | ⟨d, n, hstmt, hd⟩ := exec_committed first_ok (fun d => some (d.requeueJob id)) s
    · rw [requeueFirst, hsame, h]
    · cases hstmt
      exact (congrArg (Db.submission · k) hd).trans h
  have hsecond (s' : Session) (h' : s'.committed.submission k = none) :
      (requeueSecond second_ok id s').1.committed.submission k = none := by
    have hexec := exec_committed second_ok (fun d => some (d.clearResult id)) s'
    have hcommitted : (requeueSecond second_ok id s').1.committed =
        (s'.exec second_ok (fun d => some (d.clearResult id))).1.committed := by
      unfold requeueSecond
      split <;> rename_i heq <;> rw [heq]
    rw [hcommitted]
    obtain hsame | ⟨d, n, hstmt, hd⟩ := hexec
    · rw [hsame, h']
    · have hclear : (s'.committed.clearResult id).1 = d := congrArg Prod.fst (Option.some.inj hstmt)
      rw [hd, ← hclear, Db.submission_clearResult, h', Option.map_none, ite_self]
  rcases hrun : requeueFirst first_ok id s with ⟨s', _ | n⟩
  · simpa [requeueSubmission, hrun] using hfirst
  · rw [hrun] at hfirst
    cases n with
    | zero => simpa [requeueSubmission, hrun] using hfirst
    | succ n =>
        rw [requeueSubmission_of_changed hrun]
        exact hsecond s' hfirst

/-- Both statements have run, and the first one has found its job. -/
theorem requeueSubmission_eq_one {first_ok second_ok : Bool} {id : BitVec 32} {d : Db}
    (h : (requeueSubmission first_ok second_ok id (.idle d)).2 = 1) :
    (requeueSubmission first_ok second_ok id (.idle d)).1 = .idle ((d.requeueJob id).1.clearResult id).1 ∧
      ∃ j, d.job (rowKey id) = some j ∧ (j.status = .finished ∨ j.status = .grading) := by
  have hfirst := requeueFirst_idle first_ok id d
  cases first_ok with
  | false => simp [requeueSubmission, hfirst] at h
  | true =>
      rw [if_pos rfl, Db.changes_requeueJob] at hfirst
      split_ifs at hfirst with hany
      · obtain ⟨j, hj, hstatus⟩ := (Option.any_eq_true ..).mp hany
        rw [requeueSubmission_of_changed hfirst, requeueSecond_idle] at h ⊢
        cases second_ok with
        | false => cases h
        | true => exact ⟨rfl, j, hj, by simpa using hstatus⟩
      · simp [requeueSubmission, hfirst] at h

end Tle.Queue
