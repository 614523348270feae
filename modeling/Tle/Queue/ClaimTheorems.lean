import Tle.Queue.Theorems

/-!
# Which job a claim takes
-/

namespace Tle.Queue
open Tle.Lib

def ClaimCall.allOk (c : ClaimCall) : Bool :=
  c.opens && c.expire_ok && c.prepare_ok && c.select_ok && c.strdup_ok && c.claim_ok && c.commit_ok &&
    c.rollback_ok

/-- A job that is queued or whose claim has expired, with the code of its submission. -/
def Db.claimable (d : Db) (now : Int) (j : GradingJob) : Bool :=
  (j.status = .queued || j.expired now) && (d.submission j.submissionId).any (·.code.isSome)

def Db.oldestClaimable (d : Db) (now : Int) : Option GradingJob := d.gradingJobs.rows.find? (d.claimable now)

/-- What the expiry makes of a row. -/
def GradingJob.afterExpiry (now : Int) (j : GradingJob) : GradingJob := if j.expired now then j.requeue else j

/-- The row of a job that `c` takes. -/
def GradingJob.claimedBy (c : ClaimCall) (j : GradingJob) : GradingJob :=
  { j with
    status := .grading, claimedAt := some c.claimNow, claimToken := some c.token, attempts := j.attempts + 1 }

/-- The call hands out the submission `row` of the job under the key `k`. -/
structure Claims (c : ClaimCall) (d : Db) (job : SubmissionJob) (k : Int) (j : GradingJob) : Prop where
  found : d.job k = some j
  claimable : d.claimable c.expiryNow j = true
  least : ∀ k' j', d.job k' = some j' → d.claimable c.expiryNow j' = true → k ≤ k'
  returned : ∃ row code, d.submission k = some row ∧ row.code = some code ∧ job = .read c.token row code
  taken : (claimSubmission c (.idle d)).1.committed.job k = some (j.claimedBy c)
  others : ∀ k', k' ≠ k → (claimSubmission c (.idle d)).1.committed.job k' =
    (d.job k').map (·.afterExpiry c.expiryNow)
  submissions : ∀ k', (claimSubmission c (.idle d)).1.committed.submission k' = d.submission k'

/-- What a claim is to do when its statements succeed. -/
structure ClaimsOldest (c : ClaimCall) (d : Db) : Prop where
  claims_iff : (∃ job, (claimSubmission c (.idle d)).2 = .claimed job) ↔
    ∃ k j, d.job k = some j ∧ d.claimable c.expiryNow j = true
  claims : ∀ job, (claimSubmission c (.idle d)).2 = .claimed job → ∃ k j, Claims c d job k j
  nothing : (claimSubmission c (.idle d)).2 = .nothing → (claimSubmission c (.idle d)).1 = .idle d

/-! ## The selection -/

section Selection

variable {c : ClaimCall} {d : Db} {now : Int}

def Db.withCode (d : Db) (j : GradingJob) : Option (Submission × Text) :=
  (d.submission j.submissionId).bind fun s => s.code.map fun code => (s, code)

theorem isSome_withCode (j : GradingJob) :
    (d.withCode j).isSome = (d.submission j.submissionId).any (·.code.isSome) := by
  unfold Db.withCode
  cases d.submission j.submissionId <;> simp

theorem nextQueued_eq (d : Db) : d.nextQueued =
    (d.gradingJobs.rows.find? fun j => j.status = .queued && (d.withCode j).isSome).bind d.withCode := by
  unfold Db.nextQueued
  induction d.gradingJobs.rows with
  | nil => rfl
  | cons j rows ih =>
      rw [List.findSome?_cons, List.find?_cons]
      by_cases hqueued : j.status = .queued
      · cases hcode : d.withCode j with
        | none =>
            have hjob : (d.submission j.submissionId).bind (fun s => s.code.map fun code => (s, code)) = none :=
              hcode
            simp only [hqueued, hjob, ↓reduceIte, ih]
            rfl
        | some found =>
            have hjob : (d.submission j.submissionId).bind (fun s => s.code.map fun code => (s, code)) =
                some found :=
              hcode
            simp only [hqueued, hjob, ↓reduceIte]
            exact hcode.symm
      · simp only [hqueued, ↓reduceIte, ih]
        rfl

theorem GradingJob.submissionId_afterExpiry (now : Int) (j : GradingJob) :
    (j.afterExpiry now).submissionId = j.submissionId := by
  unfold afterExpiry
  split <;> rfl

theorem GradingJob.queued_afterExpiry (now : Int) (j : GradingJob) :
    (j.afterExpiry now).status = .queued ↔ j.status = .queued ∨ j.expired now = true := by
  unfold afterExpiry
  split
  · rename_i hexpired
    simp [GradingJob.requeue, hexpired]
  · rename_i hexpired
    simp [hexpired]

theorem GradingJob.claimedBy_afterExpiry (now : Int) (j : GradingJob) :
    (j.afterExpiry now).claimedBy c = j.claimedBy c := by
  unfold afterExpiry
  split <;> rfl

theorem queued_of_claimable {j : GradingJob} (h : d.claimable now j = true) :
    (j.afterExpiry now).status = .queued := by
  rw [GradingJob.queued_afterExpiry]
  simp only [Db.claimable, Bool.and_eq_true, Bool.or_eq_true, decide_eq_true_eq] at h
  exact h.1

theorem Db.submission_afterExpiry (k : Int) : (d.afterExpiry c).submission k = d.submission k := by
  unfold Db.afterExpiry
  split <;> rfl

theorem Db.job_afterExpiry (h : c.expire_ok = true) (k : Int) :
    (d.afterExpiry c).job k = (d.job k).map (·.afterExpiry c.expiryNow) := by
  unfold Db.afterExpiry
  rw [if_pos h, Db.job_expireJobs]
  rfl

theorem Db.withCode_afterExpiry (now : Int) (j : GradingJob) :
    (d.afterExpiry c).withCode (j.afterExpiry now) = d.withCode j := by
  rw [Db.withCode, GradingJob.submissionId_afterExpiry, submission_afterExpiry, Db.withCode]

/-- After the expiry the first queued job is the oldest claimable one. -/
theorem nextQueued_afterExpiry (h : c.expire_ok = true) :
    (d.afterExpiry c).nextQueued = (d.oldestClaimable c.expiryNow).bind d.withCode := by
  have hrows : (d.afterExpiry c).gradingJobs.rows = d.gradingJobs.rows.map (·.afterExpiry c.expiryNow) := by
    simp only [Db.afterExpiry, h, ↓reduceIte]
    rfl
  have hclaimable : (fun j : GradingJob => j.status = .queued && ((d.afterExpiry c).withCode j).isSome) ∘
      (·.afterExpiry c.expiryNow) = d.claimable c.expiryNow := by
    funext j
    simp only [Function.comp, Db.claimable, Db.withCode_afterExpiry, isSome_withCode,
      GradingJob.queued_afterExpiry]
    rw [Bool.decide_or, Bool.decide_eq_true]
  rw [nextQueued_eq, hrows, List.find?_map, hclaimable, Db.oldestClaimable]
  cases d.gradingJobs.rows.find? (d.claimable c.expiryNow) with
  | none => rfl
  | some j => exact Db.withCode_afterExpiry c.expiryNow j

/-- The columns of a claimed job name it. -/
theorem rowKey_columnInt {k : Int} (h : -2 ^ 31 ≤ k ∧ k < 2 ^ 31) : rowKey (columnInt k) = k := by
  rw [rowKey, columnInt, BitVec.toInt_ofInt]
  exact Int.bmod_eq_of_le (by omega) (by omega)

theorem opens_of_allOk (h : c.allOk = true) : c.opens = true ∧ c.expire_ok = true ∧ c.prepare_ok = true ∧
    c.select_ok = true ∧ c.strdup_ok = true ∧ c.claim_ok = true ∧ c.commit_ok = true ∧ c.rollback_ok = true := by
  simpa only [ClaimCall.allOk, Bool.and_eq_true, and_assoc] using h

/-- The oldest claimable job is found, with the row and the code of its submission. -/
theorem oldestClaimable_spec {j : GradingJob} (h : d.oldestClaimable now = some j) :
    d.job j.submissionId = some j ∧ d.claimable now j = true ∧
      (∀ k' j', d.job k' = some j' → d.claimable now j' = true → j.submissionId ≤ k') ∧
      ∃ row code, d.submission j.submissionId = some row ∧ row.code = some code ∧
        d.withCode j = some (row, code) := by
  have hclaimable : d.claimable now j = true := List.find?_some h
  have hmem : j ∈ d.gradingJobs.rows := List.mem_of_find?_eq_some h
  refine ⟨Table.mem_rows_iff.mp hmem, hclaimable, ?_, ?_⟩
  · intro k' j' hj' hclaimable'
    rw [← Db.job_key hj']
    exact Table.key_le_of_find? h (Table.find_mem hj') hclaimable'
  · simp only [Db.claimable, Bool.and_eq_true] at hclaimable
    obtain ⟨row, hrow, hcode⟩ := (Option.any_eq_true _ _).mp hclaimable.2
    obtain ⟨code, hcode⟩ := Option.isSome_iff_exists.mp hcode
    exact ⟨row, code, hrow, hcode, by rw [Db.withCode, hrow, Option.bind_some, hcode]; rfl⟩

/-- With no claimable job the claim is undone. -/
theorem claimSubmission_of_none (hok : c.allOk = true) (hnone : d.oldestClaimable c.expiryNow = none) :
    (claimSubmission c (.idle d)).1 = .idle d ∧ ∀ job, (claimSubmission c (.idle d)).2 ≠ .claimed job := by
  obtain ⟨hopens, hexpire, -, -, -, -, -, hrollback⟩ := opens_of_allOk hok
  have hclaim : d.claim c = none := by
    rw [Db.claim, nextQueued_afterExpiry hexpire, hnone]
    simp
  have hends := claimSubmission_ends (d := d) hopens
  rw [hclaim, hrollback] at hends
  obtain ⟨d', reply, hreply, heq⟩ := hends
  rw [heq]
  refine ⟨rfl, fun job hclaimed => ?_⟩
  rcases hreply with rfl | rfl
  · cases hclaimed
  · cases hclaimed

/-- The oldest claimable job is handed out, if its number survives the reading. -/
theorem claimSubmission_of_some {j : GradingJob} (hok : c.allOk = true)
    (hsome : d.oldestClaimable c.expiryNow = some j) (hfits : -2 ^ 31 ≤ j.submissionId ∧ j.submissionId < 2 ^ 31) :
    ∃ row code, d.submission j.submissionId = some row ∧ row.code = some code ∧
      claimSubmission c (.idle d) =
        (.idle ((d.afterExpiry c).claimJob (columnInt j.submissionId) c.token c.claimNow).1,
          .claimed (.read c.token row code)) := by
  obtain ⟨hopens, hexpire, hprepare, hselect, hstrdup, hmark, hcommit, -⟩ := opens_of_allOk hok
  obtain ⟨hjob, hclaimable, -, row, code, hrow, hcode, hwith⟩ := oldestClaimable_spec hsome
  have hid : row.submissionId = j.submissionId := Db.submission_key hrow
  have hchanges : ((d.afterExpiry c).claimJob (columnInt j.submissionId) c.token c.claimNow).2 = 1 := by
    rw [Db.changes_claimJob, rowKey_columnInt hfits, Db.job_afterExpiry hexpire, hjob]
    simp [queued_of_claimable hclaimable]
  have hclaim : d.claim c =
      some (((d.afterExpiry c).claimJob (columnInt j.submissionId) c.token c.claimNow).1,
        .read c.token row code) := by
    rw [Db.claim, nextQueued_afterExpiry hexpire, hsome]
    simp only [hprepare, hselect, hstrdup, hmark, hwith, SubmissionJob.read, hid, hchanges, Option.bind_some]
    rfl
  have hends := claimSubmission_ends (d := d) hopens
  rw [hclaim, hcommit] at hends
  exact ⟨row, code, hrow, hcode, hends⟩

end Selection

/-- A claim takes the oldest claimable job, as long as its number is an `int`. -/
theorem claim_takes_oldest (c : ClaimCall) (d : Db) (hok : c.allOk = true)
    (hfits : ∀ j, d.oldestClaimable c.expiryNow = some j → -2 ^ 31 ≤ j.submissionId ∧ j.submissionId < 2 ^ 31) :
    ClaimsOldest c d := by
  cases holdest : d.oldestClaimable c.expiryNow with
  | none =>
      obtain ⟨hsession, hreply⟩ := claimSubmission_of_none hok holdest
      refine ⟨?_, fun job h => absurd h (hreply job), fun _ => hsession⟩
      refine iff_of_false (fun ⟨job, h⟩ => hreply job h) ?_
      rintro ⟨k, j, hj, hclaimable⟩
      exact List.find?_eq_none.mp holdest j (Table.find_mem hj) hclaimable
  | some j =>
      obtain ⟨hjob, hclaimable, hleast, -⟩ := oldestClaimable_spec holdest
      have hj := hfits j holdest
      have hexpire := (opens_of_allOk hok).2.1
      obtain ⟨row, code, hrow, hcode, heq⟩ := claimSubmission_of_some hok holdest hj
      have hrows : ∀ k', (claimSubmission c (.idle d)).1.committed.job k' = if k' = j.submissionId
          then ((d.job k').map (·.afterExpiry c.expiryNow)).map fun j' =>
            if j'.status = .queued then j'.claimedBy c else j'
          else (d.job k').map (·.afterExpiry c.expiryNow) := by
        intro k'
        rw [heq, Session.idle_committed, Db.job_claimJob, rowKey_columnInt hj, Db.job_afterExpiry hexpire]
        rfl
      refine ⟨iff_of_true ⟨_, congrArg Prod.snd heq⟩ ⟨_, j, hjob, hclaimable⟩, ?_, ?_⟩
      · intro job hreply
        rw [heq] at hreply
        have hjobs : .read c.token row code = job := ClaimReply.claimed.inj hreply
        refine ⟨j.submissionId, j, hjob, hclaimable, hleast, ⟨row, code, hrow, hcode, hjobs.symm⟩, ?_, ?_, ?_⟩
        · rw [hrows, if_pos rfl, hjob, Option.map_some, Option.map_some, if_pos (queued_of_claimable hclaimable),
            GradingJob.claimedBy_afterExpiry]
        · intro k' hk'
          rw [hrows, if_neg hk']
        · intro k'
          rw [heq, Session.idle_committed]
          exact Db.submission_afterExpiry k'
      · intro hreply
        rw [heq] at hreply
        cases hreply

theorem claim_takes_expired : ClaimsOldest { token := "b".toList, expiryNow := 1000, claimNow := 1000 }
    (after [anEnqueue, anEnqueue, aClaim "a" 0]).db := by
  refine claim_takes_oldest { token := "b".toList, expiryNow := 1000, claimNow := 1000 }
    (after [anEnqueue, anEnqueue, aClaim "a" 0]).db (by decide) ?_
  intro j hj
  have hid : ((after [anEnqueue, anEnqueue, aClaim "a" 0]).db.oldestClaimable 1000).map (·.submissionId) =
      some 1 := by decide
  rw [hj] at hid
  have hone : j.submissionId = 1 := Option.some.inj hid
  rw [hone]
  decide

/-- The tables when 2^32 numbers have been used. -/
def farDb : Db := (enqueueSubmission { userId := -1, taskPk := 1, code := some "x".toList, isPublic := false }
  (.idle { Db.empty with sequence := 2 ^ 32 })).1.committed

/-- The number of the job is cut to 32 bits, and the update finds no row. -/
theorem claim_misses_oldest : ¬ ∀ (c : ClaimCall) (d : Db), c.allOk = true → ClaimsOldest c d := by
  intro h
  have hclaims := h { token := "a".toList, expiryNow := 0, claimNow := 0 } farDb (by decide)
  have hexists : ∃ k j, farDb.job k = some j ∧ farDb.claimable 0 j = true :=
    ⟨2 ^ 32 + 1, { submissionId := 2 ^ 32 + 1 }, by decide, by decide⟩
  obtain ⟨job, hreply⟩ := hclaims.claims_iff.mpr hexists
  have hfailed : (claimSubmission { token := "a".toList, expiryNow := 0, claimNow := 0 } (.idle farDb)).2 =
      .failed := by decide
  rw [hfailed] at hreply
  cases hreply

end Tle.Queue
