import Tle.Queue.FairTheorems

/-!
# One healthy grader empties the queue
-/

namespace Tle.Queue
open Tle.Lib

/-- One pass of the grader's loop: what it claims with, what `grade` leaves and how the report goes. -/
structure Round where
  poll : ClaimCall
  outcome : GradeOutcome
  report : CompleteCall

namespace Round

def turns (g : Nat) (r : Round) : List (Nat × Turn) :=
  [(g, .poll r.poll), (g, .grade r.outcome), (g, .report r.report)]

def allOk (r : Round) : Bool := r.poll.allOk && r.report.allOk

end Round

namespace Db

variable (d : Db)

/-- The jobs that are still to be graded. -/
def unfinished : Nat :=
  d.gradingJobs.rows.countP fun j =>
    decide (j.status ≠ .finished) && (d.submission j.submissionId).any (·.code.isSome)

/-- Every claim that stands in the table is over at `now`. -/
def AllExpired (now : Int) : Prop := ∀ k j t, d.job k = some j → j.claimedAt = some t → t < now - 600

/-- Every job with code has been graded. -/
def Drained : Prop :=
  ∀ k row, d.submission k = some row → row.code.isSome = true → d.Finished k

end Db

/-- The submission has code, and its job is not finished. -/
def Db.Ungraded (d : Db) (k : Int) : Prop :=
  ¬d.Finished k ∧ ∃ row, d.submission k = some row ∧ row.code.isSome = true

/-- The round grades the first submission that is left and stores what `grade` has left in this round. The
others stay as they are. -/
structure Grades (r : Round) (k : Int) (d d' : Db) : Prop where
  ungraded : d.Ungraded k
  first : ∀ k', d.Ungraded k' → k ≤ k'
  finished : d'.Finished k
  reported : d'.submission k = (d.submission k).map (Submission.withReport r.outcome.reported)
  others : ∀ k', k' ≠ k → d'.submission k' = d.submission k' ∧ (d'.Finished k' ↔ d.Finished k')

/-- One submission after the other is graded, until there is none left to grade. -/
inductive GradedBy : List Round → Db → Db → Prop where
  | none (d : Db) : GradedBy [] d d
  | grades {r : Round} {rs : List Round} {k : Int} {d d' d'' : Db} (h : Grades r k d d')
      (rest : GradedBy rs d' d'') : GradedBy (r :: rs) d d''
  | idle {r : Round} {rs : List Round} {d d' : Db} (h : d.Drained) (rest : GradedBy rs d d') :
      GradedBy (r :: rs) d d'

/-! ## One round -/

section Round

variable {d d' : Db} {r : Round}

/-- With every claim expired, what is unfinished can be claimed. -/
theorem claimable_of_unfinished {now : Int} (hrows : d.JobRows) (hexpired : d.AllExpired now) {j : GradingJob}
    {k : Int} (hjob : d.job k = some j) (hstatus : j.status ≠ .finished)
    (hcode : (d.submission k).any (·.code.isSome) = true) : d.claimable now j = true := by
  rw [Db.claimable, Db.job_key hjob, hcode, Bool.and_true, Bool.or_eq_true]
  cases h : j.status with
  | queued => exact Or.inl rfl
  | finished => exact absurd h hstatus
  | grading =>
      have hcoherent := hrows.coherent _ j hjob
      have htime : j.claimedAt ≠ none := hcoherent.time.mp (hcoherent.token.mp h)
      obtain ⟨t, ht⟩ := Option.ne_none_iff_exists'.mp htime
      have hlate := hexpired _ j t hjob ht
      exact Or.inr (by simp [GradingJob.expired, h, ht, hlate])

theorem claimable_of_ungraded {now k : Int} (hrows : d.JobRows) (hexpired : d.AllExpired now)
    (h : d.Ungraded k) : ∃ j, d.job k = some j ∧ d.claimable now j = true := by
  obtain ⟨hnot, row, hrow, hcode⟩ := h
  obtain ⟨j, hj⟩ := hrows.covered k row hrow
  refine ⟨j, hj, claimable_of_unfinished hrows hexpired hj (fun hstatus => hnot ⟨j, hj, hstatus⟩) ?_⟩
  rwa [hrow]

theorem unfinished_eq_zero {now : Int} (hrows : d.JobRows) (hexpired : d.AllExpired now)
    (hnone : d.oldestClaimable now = none) : d.unfinished = 0 := by
  refine List.countP_eq_zero.mpr fun j hj hunfinished => ?_
  rw [Bool.and_eq_true, decide_eq_true_eq] at hunfinished
  refine List.find?_eq_none.mp hnone j hj ?_
  exact claimable_of_unfinished hrows hexpired (Table.mem_rows_iff.mp hj) hunfinished.1 hunfinished.2

/-- The tables after a round that claims the job of `k`. -/
structure RoundOn (r : Round) (k : Int) (d d' : Db) : Prop where
  sequence : d'.sequence = d.sequence
  ungraded : d.Ungraded k
  first : ∀ k' j, d.job k' = some j → d.claimable r.poll.expiryNow j = true → k ≤ k'
  finished : d'.Finished k
  others : ∀ k', k' ≠ k → d'.job k' = (d.job k').map (·.afterExpiry r.poll.expiryNow)
  claimedAt : ∀ j, d'.job k = some j → j.claimedAt = none
  reported : d'.submission k = (d.submission k).map (Submission.withReport r.outcome.reported)
  kept : ∀ k', k' ≠ k → d'.submission k' = d.submission k'
  fewer : d'.unfinished + 1 ≤ d.unfinished

theorem unfinished_updateJobs {p f hf} (h : ∀ j, p j = true → (f j).status ≠ .finished → j.status ≠ .finished) :
    (d.updateJobs p f hf).1.unfinished ≤ d.unfinished := by
  refine countP_map_mono d.gradingJobs.rows fun j _ hj => ?_
  split at hj
  · rename_i hp
    simp only [hf, Bool.and_eq_true, decide_eq_true_eq] at hj ⊢
    exact ⟨h j hp hj.1, hj.2⟩
  · exact hj

theorem unfinished_afterExpiry (c : ClaimCall) : (d.afterExpiry c).unfinished ≤ d.unfinished := by
  unfold Db.afterExpiry
  split
  · refine unfinished_updateJobs fun j hj _ => ?_
    simp only [GradingJob.expired, Bool.and_eq_true, decide_eq_true_eq] at hj
    rw [hj.1]
    exact fun h => by cases h
  · exact le_refl _

theorem unfinished_claimJob (id : BitVec 32) (token : Text) (now : Int) :
    (d.claimJob id token now).1.unfinished ≤ d.unfinished := by
  refine unfinished_updateJobs fun j hj _ => ?_
  simp only [Bool.and_eq_true, decide_eq_true_eq] at hj
  rw [hj.2]
  exact fun h => by cases h

theorem unfinished_complete {c : CompleteCall} (h : d.held c.id c.token = true)
    (hcode : (d.submission (rowKey c.id)).any (·.code.isSome) = true) :
    (d.complete c).unfinished + 1 ≤ d.unfinished := by
  have hfinish : (d.finishJob c.id c.token).1.unfinished + 1 ≤ d.unfinished := by
    obtain ⟨j, hj, hheld⟩ := (Option.any_eq_true _ _).mp h
    have hid : j.submissionId = rowKey c.id := Db.job_key hj
    simp only [Bool.and_eq_true, decide_eq_true_eq] at hheld
    refine countP_map_lt (Table.find_mem hj) ?_ ?_ fun y _ hy => ?_
    · have hsame : ((d.finishJob c.id c.token).1.submission (rowKey c.id)).any (·.code.isSome) = true := hcode
      rw [hid, hsame, hheld.2]
      rfl
    · simp [GradingJob.heldBy, hid, hheld]
    · split at hy
      · simp at hy
      · exact hy
  refine le_of_eq_of_le (congrArg (· + 1) ?_) hfinish
  refine List.countP_congr fun j _ => ?_
  have hsub : ((d.complete c).submission j.submissionId).any (·.code.isSome) =
      (d.submission j.submissionId).any (·.code.isSome) := by
    have hrow : (d.complete c).submission j.submissionId = _ := Db.submission_storeResult
    rw [hrow]
    split
    · exact Option.any_map ..
    · rfl
  rw [hsub]
  rfl

theorem job_complete {c : CompleteCall} (k : Int) : (d.complete c).job k =
    if k = rowKey c.id then
      (d.job k).map (fun j => if j.claimToken = some c.token ∧ j.status = .grading then
        { j with status := .finished, claimedAt := none, claimToken := none } else j)
    else d.job k := by
  have hjob : (d.complete c).job k = (d.finishJob c.id c.token).1.job k := Db.job_updateSubmissions
  rw [hjob, Db.job_finishJob]

/-- A round whose statements succeed claims the oldest job and stores its result. -/
theorem roundOn {j : GradingJob} (hok : r.allOk = true) (hsome : d.oldestClaimable r.poll.expiryNow = some j)
    (hfits : -2 ^ 31 ≤ j.submissionId ∧ j.submissionId < 2 ^ 31) :
    ∃ job d₂, claimSubmission r.poll (.idle d) = (.idle d₂, .claimed job) ∧
      completeSubmission (job.completion r.outcome.reported r.report) (.idle d₂) =
        (.idle (d₂.complete (job.completion r.outcome.reported r.report)), 0) ∧
      RoundOn r j.submissionId d (d₂.complete (job.completion r.outcome.reported r.report)) := by
  obtain ⟨hpoll, hreport⟩ := Bool.and_eq_true_iff.mp hok
  obtain ⟨hjob, hclaimable, hfirst, -⟩ := oldestClaimable_spec hsome
  obtain ⟨row, code, hrow, hcode, hclaim⟩ := claimSubmission_of_some hpoll hsome hfits
  have hexpire := (opens_of_allOk hpoll).2.1
  have hid : row.submissionId = j.submissionId := Db.submission_key hrow
  have hkey := rowKey_columnInt hfits
  refine ⟨_, _, hclaim, ?_⟩
  generalize hc : SubmissionJob.completion (.read r.poll.token row code) r.outcome.reported r.report = c
  have hcid : rowKey c.id = j.submissionId := by
    rw [← hc, ← hkey, ← hid]
    rfl
  have hctoken : c.token = r.poll.token := by rw [← hc]; rfl
  have hcreport : c.report = r.outcome.reported := by rw [← hc]; rfl
  have hcok : c.allOk = true := by rw [← hc]; exact hreport
  generalize hd₂ : ((d.afterExpiry r.poll).claimJob (columnInt j.submissionId) r.poll.token
    r.poll.claimNow).1 = d₂
  have hsub₂ (k : Int) : d₂.submission k = d.submission k := by
    rw [← hd₂]
    exact Db.submission_afterExpiry k
  have hjob₂ (k : Int) : d₂.job k = if k = j.submissionId then some (j.claimedBy r.poll)
      else (d.job k).map (·.afterExpiry r.poll.expiryNow) := by
    rw [← hd₂, Db.job_claimJob, hkey, Db.job_afterExpiry hexpire]
    split
    · rename_i hk
      rw [hk, hjob, Option.map_some, Option.map_some, if_pos (queued_of_claimable hclaimable)]
      exact congrArg some (GradingJob.claimedBy_afterExpiry r.poll.expiryNow j)
    · rfl
  have hheld : d₂.held c.id c.token = true := by
    rw [Db.held, hcid, hjob₂, if_pos rfl, hctoken]
    simp [GradingJob.claimedBy]
  refine ⟨?_, ?_⟩
  · obtain ⟨-, -, heq⟩ | ⟨hnot, -⟩ := completeSubmission_cases c d₂
    · exact heq
    · simp [hcok, hheld] at hnot
  have hsub (k : Int) : (d₂.complete c).submission k = if k = j.submissionId
      then (d.submission k).map (Submission.withReport r.outcome.reported) else d.submission k := by
    have hstore : (d₂.complete c).submission k = _ := Db.submission_storeResult
    rw [hstore, hcid, hcreport]
    change (if k = j.submissionId then (d₂.submission k).map _ else d₂.submission k) = _
    rw [hsub₂]
  have hdone : (d₂.complete c).job j.submissionId =
      some { j.claimedBy r.poll with status := .finished, claimedAt := none, claimToken := none } := by
    rw [job_complete, hcid, if_pos rfl, hjob₂, if_pos rfl, Option.map_some, hctoken, if_pos ⟨rfl, rfl⟩]
  constructor
  · change d₂.sequence = d.sequence
    rw [← hd₂]
    exact sequence_afterExpiry r.poll
  · refine ⟨?_, row, hrow, by rw [hcode]; rfl⟩
    rintro ⟨j', hj', hstatus⟩
    rw [hjob] at hj'
    cases hj'
    simp [Db.claimable, GradingJob.expired, hstatus] at hclaimable
  · exact hfirst
  · exact ⟨_, hdone, rfl⟩
  · intro k hk
    rw [job_complete, hcid, if_neg hk, hjob₂, if_neg hk]
  · intro j' hj'
    rw [hdone] at hj'
    cases hj'
    rfl
  · rw [hsub, if_pos rfl]
  · intro k hk
    rw [hsub, if_neg hk]
  · have hcode₂ : (d₂.submission (rowKey c.id)).any (·.code.isSome) = true := by
      rw [hcid, hsub₂, hrow]
      simp [hcode]
    refine (unfinished_complete hheld hcode₂).trans ?_
    rw [← hd₂]
    exact (unfinished_claimJob _ _ _).trans (unfinished_afterExpiry _)

theorem finished_afterExpiry {now : Int} {j : GradingJob} :
    (j.afterExpiry now).status = .finished ↔ j.status = .finished := by
  unfold GradingJob.afterExpiry
  split
  · rename_i hexpired
    have hgrading : j.status = .grading := by
      rw [GradingJob.expired, Bool.and_eq_true, decide_eq_true_eq] at hexpired
      exact hexpired.1
    simp [GradingJob.requeue, hgrading]
  · exact Iff.rfl

theorem RoundOn.grades {k : Int} (h : RoundOn r k d d') (hrows : d.JobRows)
    (hexpired : d.AllExpired r.poll.expiryNow) : Grades r k d d' where
  ungraded := h.ungraded
  first k' hk' := by
    obtain ⟨j, hj, hclaimable⟩ := claimable_of_ungraded hrows hexpired hk'
    exact h.first k' j hj hclaimable
  finished := h.finished
  reported := h.reported
  others k' hk' := by
    refine ⟨h.kept k' hk', ?_⟩
    unfold Db.Finished
    rw [h.others k' hk']
    constructor
    · rintro ⟨j', hj', hstatus⟩
      obtain ⟨j, hj, rfl⟩ := Option.map_eq_some_iff.mp hj'
      exact ⟨j, hj, finished_afterExpiry.mp hstatus⟩
    · rintro ⟨j, hj, hstatus⟩
      exact ⟨_, by rw [hj, Option.map_some], finished_afterExpiry.mpr hstatus⟩

theorem RoundOn.allExpired {k now : Int} (h : RoundOn r k d d') (hexpired : d.AllExpired now) :
    d'.AllExpired now := by
  intro k' j' t hj' ht
  by_cases hk : k' = k
  · subst hk
    rw [h.claimedAt j' hj'] at ht
    cases ht
  · rw [h.others k' hk] at hj'
    obtain ⟨j, hj, rfl⟩ := Option.map_eq_some_iff.mp hj'
    unfold GradingJob.afterExpiry at ht
    split at ht
    · cases ht
    · exact hexpired k' j t hj ht

@[simp] theorem Connections.session_use (s : Connections) (p : Nat) (c : Session) :
    (s.use p c).session p = c := by
  simp [Connections.session, Connections.use]

/-- One pass of an idle grader. -/
theorem run_round {w : Workers} {g : Nat} (hphase : w.phase g = .polling) (htxn : w.conns.txn g = none)
    (hok : r.allOk = true) (hrows : w.conns.db.JobRows) (hexpired : w.conns.db.AllExpired r.poll.expiryNow)
    (hfits : ∀ j, w.conns.db.oldestClaimable r.poll.expiryNow = some j →
      -2 ^ 31 ≤ j.submissionId ∧ j.submissionId < 2 ^ 31) :
    (run Workers.step w (r.turns g)).phase g = .polling ∧ (run Workers.step w (r.turns g)).conns.txn g = none ∧
      (((run Workers.step w (r.turns g)).conns.db = w.conns.db ∧ w.conns.db.unfinished = 0) ∨
        ∃ k, RoundOn r k w.conns.db (run Workers.step w (r.turns g)).conns.db) := by
  have hsession := Connections.session_of_idle htxn
  cases holdest : w.conns.db.oldestClaimable r.poll.expiryNow with
  | none =>
      obtain ⟨hidle, hreply⟩ := claimSubmission_of_none (Bool.and_eq_true_iff.mp hok).1 holdest
      have hpoll : w.step (g, .poll r.poll) = w.call g (.claim r.poll) := by
        cases hclaim : (claimSubmission r.poll (.idle w.conns.db)).2 with
        | claimed job => exact absurd hclaim (hreply job)
        | failed => simp only [Workers.step, hphase, hsession, hclaim]
        | nothing => simp only [Workers.step, hphase, hsession, hclaim]
      have hcall : (w.call g (.claim r.poll)).phase g = .polling := hphase
      have hgrade : (w.call g (.claim r.poll)).step (g, .grade r.outcome) = w.call g (.claim r.poll) := by
        simp only [Workers.step, hcall]
      have hreport : (w.call g (.claim r.poll)).step (g, .report r.report) = w.call g (.claim r.poll) := by
        simp only [Workers.step, hcall]
      have hrun : run Workers.step w (r.turns g) = w.call g (.claim r.poll) := by
        change Workers.step (Workers.step (w.step (g, .poll r.poll)) (g, .grade r.outcome)) (g, .report r.report) = _
        rw [hpoll, hgrade, hreport]
      have hcalled : (w.call g (.claim r.poll)).conns.session g = .idle w.conns.db := by
        simp [Workers.call, Connections.step, Connections.session_use, hsession, hidle]
      rw [hrun]
      exact ⟨hphase, congrArg Session.txn hcalled,
        Or.inl ⟨congrArg Session.committed hcalled, unfinished_eq_zero hrows hexpired holdest⟩⟩
  | some j =>
      obtain ⟨job, d₂, hclaim, hcomplete, hround⟩ := roundOn hok holdest (hfits j holdest)
      have hpoll : w.step (g, .poll r.poll) = (w.call g (.claim r.poll)).enter g (.grading job) := by
        simp only [Workers.step, hphase, hsession, hclaim]
      generalize hw₁ : (w.call g (.claim r.poll)).enter g (.grading job) = w₁ at hpoll
      have hphase₁ : w₁.phase g = .grading job := by
        rw [← hw₁]
        exact Function.update_self ..
      have hsession₁ : w₁.conns.session g = .idle d₂ := by
        rw [← hw₁]
        simp [Workers.enter, Workers.call, Connections.step, Connections.session_use, hsession, hclaim]
      have hgrade : w₁.step (g, .grade r.outcome) = w₁.enter g (.reporting job r.outcome.reported) := by
        simp only [Workers.step, hphase₁]
      generalize hw₂ : w₁.enter g (.reporting job r.outcome.reported) = w₂ at hgrade
      have hphase₂ : w₂.phase g = .reporting job r.outcome.reported := by
        rw [← hw₂]
        exact Function.update_self ..
      have hsession₂ : w₂.conns.session g = .idle d₂ := by
        rw [← hw₂]
        exact hsession₁
      have hreport : w₂.step (g, .report r.report) =
          (w₂.call g (.complete (job.completion r.outcome.reported r.report))).enter g .polling := by
        simp only [Workers.step, hphase₂]
      have hrun : run Workers.step w (r.turns g) =
          (w₂.call g (.complete (job.completion r.outcome.reported r.report))).enter g .polling := by
        change Workers.step (Workers.step (w.step (g, .poll r.poll)) (g, .grade r.outcome)) (g, .report r.report) = _
        rw [hpoll, hgrade, hreport]
      generalize hw₃ : (w₂.call g (.complete (job.completion r.outcome.reported r.report))).enter g .polling = w₃
        at hrun
      have hsession₃ : w₃.conns.session g =
          .idle (d₂.complete (job.completion r.outcome.reported r.report)) := by
        rw [← hw₃]
        simp [Workers.enter, Workers.call, Connections.step, Connections.session_use, hsession₂, hcomplete]
      rw [hrun]
      refine ⟨?_, congrArg Session.txn hsession₃, Or.inr ⟨j.submissionId, ?_⟩⟩
      · rw [← hw₃]
        exact Function.update_self ..
      · have hdb : w₃.conns.db = d₂.complete (job.completion r.outcome.reported r.report) :=
          congrArg Session.committed hsession₃
        rw [hdb]
        exact hround

end Round

/-! ## All rounds -/

theorem jobRows_workers (as : List (Nat × Turn)) : (workersAfter as).conns.db.JobRows := by
  obtain ⟨bs, hbs⟩ := workersAfter_conns as
  obtain ⟨cs, hcs⟩ := connectionsAfter_db bs
  rw [hbs, hcs]
  exact jobRows cs

theorem drained_of_unfinished {d : Db} (hrows : d.JobRows) (h : d.unfinished = 0) : d.Drained := by
  intro k row hrow hcode
  obtain ⟨j, hj⟩ := hrows.covered k row hrow
  have hkey : j.submissionId = k := Db.job_key hj
  refine ⟨j, hj, ?_⟩
  have hnot := List.countP_eq_zero.mp h j (Table.find_mem hj)
  rw [hkey, hrow] at hnot
  simpa [hcode] using hnot

/-- From any state that graders and web processes can reach, one grader that is idle and whose statements
succeed, as soon as the other claims have expired, grades one submission with code after the other, and after
as many rounds as there are jobs to do it has graded all of them. -/
theorem grader_drains (as : List (Nat × Turn)) (g : Nat) (rs : List Round)
    (hphase : (workersAfter as).phase g = .polling) (htxn : (workersAfter as).conns.txn g = none)
    (hids : (workersAfter as).conns.db.sequence < 2 ^ 31) (hok : ∀ r ∈ rs, r.allOk = true)
    (hexpired : ∀ r ∈ rs, (workersAfter as).conns.db.AllExpired r.poll.expiryNow)
    (hlength : (workersAfter as).conns.db.unfinished ≤ rs.length) :
    GradedBy rs (workersAfter as).conns.db (workersAfter (as ++ rs.flatMap (Round.turns g))).conns.db ∧
      (workersAfter (as ++ rs.flatMap (Round.turns g))).conns.db.Drained := by
  induction rs generalizing as with
  | nil =>
      rw [List.flatMap_nil, List.append_nil]
      exact ⟨.none _, drained_of_unfinished (jobRows_workers as) (Nat.le_zero.mp hlength)⟩
  | cons r rs ih =>
      have hnext : workersAfter (as ++ r.turns g) = run Workers.step (workersAfter as) (r.turns g) :=
        run_append as (r.turns g)
      have hfits (j : GradingJob) (hj : (workersAfter as).conns.db.oldestClaimable r.poll.expiryNow = some j) :
          -2 ^ 31 ≤ j.submissionId ∧ j.submissionId < 2 ^ 31 := by
        obtain ⟨-, -, -, row, -, hrow, -⟩ := oldestClaimable_spec hj
        obtain ⟨hpos, hle⟩ := numbered_workers as row (Table.find_mem hrow)
        rw [Db.submission_key hrow] at hpos hle
        omega
      obtain ⟨hphase', htxn', hround⟩ := run_round hphase htxn (hok r List.mem_cons_self) (jobRows_workers as)
        (hexpired r List.mem_cons_self) hfits
      rw [← hnext] at hphase' htxn' hround
      rw [List.flatMap_cons, ← List.append_assoc]
      rcases hround with ⟨hsame, hzero⟩ | ⟨k, hround⟩
      · have hrest := ih (as ++ r.turns g) hphase' htxn' (by rwa [hsame])
          (fun r' hr' => hok r' (List.mem_cons_of_mem r hr'))
          (fun r' hr' => by rw [hsame]; exact hexpired r' (List.mem_cons_of_mem r hr'))
          (by rw [hsame, hzero]; exact Nat.zero_le _)
        rw [hsame] at hrest
        exact ⟨.idle (drained_of_unfinished (jobRows_workers as) hzero) hrest.1, hrest.2⟩
      · have hfewer := hround.fewer
        rw [List.length_cons] at hlength
        have hrest := ih (as ++ r.turns g) hphase' htxn' (by rwa [hround.sequence])
          (fun r' hr' => hok r' (List.mem_cons_of_mem r hr'))
          (fun r' hr' => hround.allExpired (hexpired r' (List.mem_cons_of_mem r hr'))) (by omega)
        have hgrades := hround.grades (jobRows_workers as) (hexpired r List.mem_cons_self)
        exact ⟨.grades hgrades hrest.1, hrest.2⟩

/-- A grader dies with its job, and another one takes over. -/
def abandoned : List (Nat × Turn) :=
  [(0, .web (.enqueue (anEnqueueBy 4 true))), (0, .web (.enqueue (anEnqueueBy 5 true))),
    (1, .poll { token := "a".toList, expiryNow := 0, claimNow := 0 }), (1, .restart)]

def aRound (token : String) : Round where
  poll := { token := token.toList, expiryNow := 1000, claimNow := 1000 }
  outcome := { rc := 0, report := aReport "accepted!" }
  report := { id := 0, report := aReport "", token := [] }

theorem grader_drains_abandoned :
    (workersAfter (abandoned ++ [aRound "b", aRound "c"].flatMap (Round.turns 2))).conns.db.Drained := by
  refine (grader_drains abandoned 2 [aRound "b", aRound "c"] rfl rfl (by decide) (by decide) ?_ (by decide)).2
  have hlate : (workersAfter abandoned).conns.db.gradingJobs.rows.all
      (fun j => j.claimedAt.all (· < 1000 - 600)) = true := by decide
  have hexpired : (workersAfter abandoned).conns.db.AllExpired 1000 := by
    intro k j t hj ht
    have hjob := List.all_eq_true.mp hlate j (Table.find_mem hj)
    simpa [ht] using hjob
  intro r hr
  rcases List.mem_pair.mp hr with rfl | rfl
  · exact hexpired
  · exact hexpired

end Tle.Queue
