import Tle.Queue.WorkerTheorems

/-!
# How long a job can wait
-/

namespace Tle.Queue
open Tle.Lib

/-! ## Attempts -/

namespace Event

/-- A grader has been handed the job of `k`. -/
def isClaimOf (k : Int) : Event → Bool
  | claimed k' _ => k' = k
  | _ => false

def isClaim : Event → Bool
  | claimed _ _ => true
  | _ => false

/-- A job before `k` is back in the queue. -/
def isReturnBefore (k : Int) : Event → Bool
  | requeued k' => k' < k
  | expired k' => k' < k
  | _ => false

end Event

def Db.attempts (d : Db) (k : Int) : Nat := (d.job k).elim 0 (·.attempts)

section Attempts

variable {d d' : Db} {k : Int}

theorem attempts_congr {f : GradingJob → GradingJob} (h : d'.job k = (d.job k).map f)
    (hf : ∀ j, (f j).attempts = j.attempts) : d'.attempts k = d.attempts k := by
  unfold Db.attempts
  rw [h]
  cases d.job k with
  | none => rfl
  | some j => exact hf j

theorem attempts_afterExpiry (c : ClaimCall) : (d.afterExpiry c).attempts k = d.attempts k := by
  unfold Db.afterExpiry
  split
  · refine attempts_congr Db.job_expireJobs fun j => ?_
    split <;> rfl
  · rfl

theorem attempts_claimJob {id : BitVec 32} {token : Text} {now : Int} (h : d.claimJob id token now = (d', 1)) :
    d'.attempts k = d.attempts k + if rowKey id = k then 1 else 0 := by
  have hchanges := @Db.changes_claimJob d id token now
  have hjob := @Db.job_claimJob d k id token now
  rw [h] at hchanges hjob
  unfold Db.attempts
  rw [hjob]
  by_cases hk : k = rowKey id
  · subst hk
    cases hj : d.job (rowKey id) with
    | none => simp [hj] at hchanges
    | some j =>
        have hqueued : j.status = .queued := by
          by_contra hne
          simp [hj, hne] at hchanges
        simp [hqueued]
  · rw [if_neg hk, if_neg (Ne.symm hk), Nat.add_zero]

theorem attempts_enqueue {c : EnqueueCall} {id : Int} (h : d.enqueue c = some (d', id)) :
    d'.attempts k = d.attempts k := by
  obtain ⟨_, _, d₁, u, h₁, h₂⟩ := enqueue_eq_some h
  obtain ⟨hjobs, -⟩ := Db.insertSubmission_spec h₁
  obtain ⟨hnone, -, hjobs'⟩ := Db.insertJob_spec h₂
  unfold Db.attempts
  rw [hjobs']
  split
  · rename_i hk
    subst hk
    rw [← hjobs, hnone]
    rfl
  · rw [hjobs]

end Attempts

theorem countP_expired (ks : List Int) (k : Int) : (ks.map Event.expired).countP (Event.isClaimOf k) = 0 := by
  rw [List.countP_map]
  exact List.countP_eq_zero.mpr fun _ _ h => by cases h

/-- Each step raises the attempts of a job by the claims of it that it emits. -/
theorem attempts_step (s : System) (a : Action) (k : Int) :
    (s.step a).db.attempts k = s.db.attempts k + (s.emit a).countP (Event.isClaimOf k) := by
  cases a with
  | enqueue c =>
      simp only [System.step, System.emit, List.countP_nil, Nat.add_zero]
      by_cases hstores : c.stores (.idle s.db) = true
      · obtain ⟨d', id, henqueue, heq⟩ := enqueueSubmission_of_stores hstores
        rw [heq]
        exact attempts_enqueue henqueue
      · rw [enqueueSubmission_of_not_stores hstores]
        rfl
  | claim c =>
      obtain ⟨row, code, d', -, hclaim, heq⟩ | ⟨hcommitted, hreply⟩ := claimSubmission_cases c s.db
      · simp only [System.step, System.emit, heq, List.countP_append, countP_expired, Nat.zero_add,
          List.countP_singleton, Session.idle_committed]
        rw [attempts_claimJob hclaim, attempts_afterExpiry]
        simp [Event.isClaimOf, SubmissionJob.read]
      · rw [System.emit_claim_eq_nil hreply]
        simp only [System.step, hcommitted, List.countP_nil, Nat.add_zero]
  | complete c =>
      obtain ⟨-, hheld, heq⟩ | ⟨-, hcommitted, hcode⟩ := completeSubmission_cases c s.db
      · simp only [System.step, System.emit, heq, ↓reduceIte, Session.idle_committed, List.countP_singleton,
          Event.isClaimOf, Bool.false_eq_true, Nat.add_zero]
        have hjob : (s.db.complete c).job k = (s.db.finishJob c.id c.token).1.job k := Db.job_updateSubmissions
        rw [Db.job_finishJob] at hjob
        split at hjob
        · refine attempts_congr hjob fun j => ?_
          split <;> rfl
        · unfold Db.attempts
          rw [hjob]
      · simp [System.step, System.emit, hcommitted, hcode]
  | requeueJob web id ok =>
      cases ok with
      | false => simp [System.step, System.emit, requeueFirst_idle]
      | true =>
          have hnone : (s.emit (.requeueJob web id true)).countP (Event.isClaimOf k) = 0 := by
            simp only [System.emit]
            split <;> rfl
          rw [hnone, Nat.add_zero]
          simp only [System.step, requeueFirst_idle, ↓reduceIte, Session.idle_committed]
          have hjob := @Db.job_requeueJob s.db k id
          split at hjob
          · refine attempts_congr hjob fun j => ?_
            split <;> rfl
          · unfold Db.attempts
            rw [hjob]
  | requeueClear web ok =>
      simp only [System.step, System.emit, List.countP_nil, Nat.add_zero, requeueSecond_idle]
      cases s.pending web with
      | none => rfl
      | some id => cases ok <;> rfl

/-- In every run `attempts` is the number of times the job has been handed out, over all expiries and
rejudges. -/
theorem attempts_count (as : List Action) (k : Int) :
    (after as).db.attempts k = (events as).countP (Event.isClaimOf k) := by
  refine run_invariant (P := fun es (s : System) => s.db.attempts k = es.countP (Event.isClaimOf k)) rfl
    (fun es s a h => ?_) as
  rw [attempts_step, h, List.countP_append]

/-! ## Jobs that are taken first -/

section Counting

variable {α : Type*} {q r : α → Bool} {f : α → α}

theorem countP_map_le (l : List α) (h : ∀ x ∈ l, q (f x) = true → q x = true ∨ r x = true) :
    (l.map f).countP q ≤ l.countP q + l.countP r := by
  induction l with
  | nil => simp
  | cons x l ih =>
      have hrest := ih fun y hy => h y (List.mem_cons_of_mem x hy)
      have hx := h x List.mem_cons_self
      simp only [List.map_cons, List.countP_cons]
      by_cases hq : q (f x) = true
      · rcases hx hq with hqx | hrx
        · simp only [hq, hqx, ↓reduceIte]
          omega
        · simp only [hq, hrx, ↓reduceIte]
          omega
      · simp only [hq, Bool.false_eq_true, ↓reduceIte]
        omega

theorem countP_map_mono (l : List α) (h : ∀ x ∈ l, q (f x) = true → q x = true) :
    (l.map f).countP q ≤ l.countP q := by
  rw [List.countP_map]
  exact List.countP_mono_left fun x hx hqx => h x hx hqx

theorem countP_map_lt {l : List α} {x : α} (hx : x ∈ l) (hq : q x = true) (hf : q (f x) = false)
    (h : ∀ y ∈ l, q (f y) = true → q y = true) : (l.map f).countP q + 1 ≤ l.countP q := by
  obtain ⟨before, behind, rfl⟩ := List.append_of_mem hx
  have hbefore := countP_map_mono before fun y hy => h y (List.mem_append_left _ hy)
  have hbehind := countP_map_mono behind fun y hy => h y (List.mem_append_right _ (List.mem_cons_of_mem x hy))
  simp only [List.map_append, List.map_cons, List.countP_append, List.countP_cons, hq, hf, ↓reduceIte,
    Bool.false_eq_true]
  omega

end Counting

/-- The queued jobs before `k`. -/
def Db.waitingBefore (d : Db) (k : Int) : Nat :=
  d.gradingJobs.rows.countP fun j => j.submissionId < k && j.status = .queued

/-- The job of `k` is queued and can be claimed. -/
def Db.Waits (d : Db) (k : Int) : Prop :=
  (∃ j, d.job k = some j ∧ j.status = .queued) ∧ ∃ row, d.submission k = some row ∧ row.code.isSome = true

section Waiting

variable {d d' : Db} {k : Int}

/-- An update puts at most the rows it changes into the queue. -/
theorem waitingBefore_updateJobs {p f hf} : (d.updateJobs p f hf).1.waitingBefore k ≤
    d.waitingBefore k + d.gradingJobs.rows.countP fun j => j.submissionId < k && p j := by
  refine countP_map_le d.gradingJobs.rows fun j _ hj => ?_
  split at hj
  · rename_i hp
    rw [hf] at hj
    simp only [Bool.and_eq_true] at hj ⊢
    exact Or.inr ⟨hj.1, hp⟩
  · exact Or.inl hj

theorem waitingBefore_updateJobs_le {p f hf} (h : ∀ j, (f j).status ≠ .queued) :
    (d.updateJobs p f hf).1.waitingBefore k ≤ d.waitingBefore k := by
  refine countP_map_mono d.gradingJobs.rows fun j _ hj => ?_
  split at hj
  · simp [h j] at hj
  · exact hj

theorem waitingBefore_afterExpiry (c : ClaimCall) : (d.afterExpiry c).waitingBefore k ≤
    d.waitingBefore k + ((d.expiredBy c).map Event.expired).countP (Event.isReturnBefore k) := by
  unfold Db.afterExpiry Db.expiredBy
  split
  · refine waitingBefore_updateJobs.trans (Nat.add_le_add_left (le_of_eq ?_) _)
    rw [List.map_map, List.countP_map, List.countP_filter]
    rfl
  · exact Nat.le_add_right _ _

/-- A claim of a job before `k` takes it out of the queue. -/
theorem waitingBefore_claimJob {id : BitVec 32} {token : Text} {now : Int}
    (h : d.claimJob id token now = (d', 1)) (hk : rowKey id < k) :
    d'.waitingBefore k + 1 ≤ d.waitingBefore k := by
  have hd' : d' = (d.claimJob id token now).1 := by rw [h]
  have hchanges := @Db.changes_claimJob d id token now
  rw [h] at hchanges
  cases hj : d.job (rowKey id) with
  | none => simp [hj] at hchanges
  | some j =>
      have hqueued : j.status = .queued := by
        by_contra hne
        simp [hj, hne] at hchanges
      have hid : j.submissionId = rowKey id := Db.job_key hj
      rw [hd']
      refine countP_map_lt (Table.find_mem hj) (by simp [hid, hk, hqueued]) ?_ fun y _ hy => ?_
      · simp [hid, hqueued]
      · split at hy
        · simp at hy
        · exact hy

theorem waitingBefore_enqueue {c : EnqueueCall} {id : Int} (h : d.enqueue c = some (d', id)) (hk : k ≤ id) :
    d'.waitingBefore k = d.waitingBefore k := by
  obtain ⟨_, _, d₁, u, h₁, h₂⟩ := enqueue_eq_some h
  have hjobs₁ : d₁.gradingJobs = d.gradingJobs := by
    simp only [Db.insertSubmission] at h₁
    split at h₁
    · cases h₁
    · cases h₁
      rfl
  have hrows : d'.gradingJobs.rows =
      Table.insertRow GradingJob.submissionId { submissionId := id } d₁.gradingJobs.rows := by
    unfold Db.insertJob at h₂
    split at h₂
    · cases h₂
    · split at h₂
      · cases h₂
      · rename_i hins
        cases h₂
        exact Table.rows_insert? hins
  unfold Db.waitingBefore
  rw [List.countP_eq_length_filter, List.countP_eq_length_filter, hrows, Table.filter_insertRow_neg _ ?_, hjobs₁]
  simpa using hk

/-- A claim does not pass over a job that waits. -/
theorem nextQueued_le {row : Submission} {code : Text} (h : d.nextQueued = some (row, code)) (hwait : d.Waits k) :
    row.submissionId ≤ k := by
  obtain ⟨⟨j, hj, hqueued⟩, s, hs, hcode⟩ := hwait
  rw [nextQueued_eq] at h
  obtain ⟨j₀, hfind, hwith⟩ := Option.bind_eq_some_iff.mp h
  obtain ⟨s₀, hs₀, hcode₀⟩ := Option.bind_eq_some_iff.mp hwith
  obtain ⟨code', -, heq⟩ := Option.map_eq_some_iff.mp hcode₀
  cases heq
  rw [Db.submission_key hs₀]
  have hle := Table.key_le_of_find? hfind (Table.find_mem hj) (by
    rw [isSome_withCode, Db.job_key hj, hs]
    simp [hqueued, hcode])
  rw [Db.job_key hj] at hle
  exact hle

theorem Db.Waits.afterExpiry (h : d.Waits k) (c : ClaimCall) : (d.afterExpiry c).Waits k := by
  obtain ⟨⟨j, hj, hqueued⟩, hrow⟩ := h
  constructor
  · unfold Db.afterExpiry
    split
    · have hsame : j.expired c.expiryNow = false := by simp [GradingJob.expired, hqueued]
      refine ⟨j, ?_, hqueued⟩
      rw [Db.job_expireJobs, hj, Option.map_some, hsame]
      rfl
    · exact ⟨j, hj, hqueued⟩
  · rw [Db.submission_afterExpiry]
    exact hrow

end Waiting

/-- A requeue puts at most its own job into the queue, and says so. -/
theorem waitingBefore_requeueJob (s : System) (web : Nat) (id : BitVec 32) (k : Int) :
    (s.step (.requeueJob web id true)).db.waitingBefore k ≤
      s.db.waitingBefore k + (s.emit (.requeueJob web id true)).countP (Event.isReturnBefore k) := by
  have hle : (s.db.requeueJob id).1.waitingBefore k ≤ _ := waitingBefore_updateJobs
  have hmono : (s.db.gradingJobs.rows.countP fun j => j.submissionId < k && GradingJob.requeueable id j) ≤
      (s.db.requeueJob id).2 :=
    List.countP_mono_left fun j _ hj => (Bool.and_eq_true_iff.mp hj).2
  have hchanges := @Db.changes_requeueJob s.db id
  simp only [System.step, System.emit, requeueFirst_idle, ↓reduceIte, Session.idle_committed,
    Option.any_some, decide_eq_true_eq]
  refine hle.trans (Nat.add_le_add_left ?_ _)
  by_cases hk : rowKey id < k
  · have hone : (s.db.requeueJob id).2 ≤ 1 := by
      rw [hchanges]
      split <;> omega
    split
    · simp only [List.countP_singleton, Event.isReturnBefore, hk, decide_true, ↓reduceIte]
      exact hmono.trans hone
    · rename_i hzero
      exact hmono.trans (by omega)
  · rw [List.countP_eq_zero.mpr]
    · exact Nat.zero_le _
    · intro j _ hj
      simp only [GradingJob.requeueable, Bool.and_eq_true, decide_eq_true_eq] at hj
      exact hk (hj.2.1 ▸ hj.1)

/-- The job that a claim marks does not wait any more. -/
theorem not_waits_of_claimed {d d' : Db} {id : BitVec 32} {token : Text} {now k : Int}
    (h : d.claimJob id token now = (d', 1)) (hk : rowKey id = k) : ¬d'.Waits k := by
  rintro ⟨⟨j, hj, hqueued⟩, -⟩
  have hjob := @Db.job_claimJob d k id token now
  rw [h, if_pos hk.symm, hj] at hjob
  obtain ⟨j₀, -, heq⟩ := Option.map_eq_some_iff.mp hjob.symm
  subst heq
  split at hqueued
  · cases hqueued
  · rename_i hnot
    exact hnot hqueued

/-- A claim that leaves `k` waiting takes a job before it. -/
theorem claim_before {d d' : Db} {k : Int} {c : ClaimCall} {row : Submission} {code : Text}
    (hnumbers : d.Numbered) (hids : d.sequence < 2 ^ 31) (hwait : d.Waits k)
    (hnext : (d.afterExpiry c).nextQueued = some (row, code))
    (hclaim : (d.afterExpiry c).claimJob (columnInt row.submissionId) c.token c.claimNow = (d', 1))
    (hwait' : d'.Waits k) : rowKey (columnInt row.submissionId) < k := by
  have hle := nextQueued_le hnext (hwait.afterExpiry c)
  have hrow := (nextQueued_spec hnext).choose_spec.2.2.1
  rw [Db.submission_afterExpiry] at hrow
  obtain ⟨hpos, hlast⟩ := hnumbers row (Table.find_mem hrow)
  have hfits : rowKey (columnInt row.submissionId) = row.submissionId :=
    rowKey_columnInt ⟨by omega, by omega⟩
  have hne : row.submissionId ≠ k := by
    intro hk
    refine not_waits_of_claimed hclaim ?_ hwait'
    rw [hfits, hk]
  rw [hfits]
  omega

/-- A step that leaves `k` waiting hands out no job but one before it. -/
theorem claimed_before_step {s : System} {k : Int} (a : Action) (hnumbers : s.db.Numbered)
    (hids : s.db.sequence < 2 ^ 31) (hwait : s.db.Waits k) (hwait' : (s.step a).db.Waits k) :
    ∀ k' token, Event.claimed k' token ∈ s.emit a → k' < k := by
  intro k' token hmem
  cases a with
  | claim c =>
      obtain ⟨row, code, d', hnext, hclaim, heq⟩ | ⟨-, hreply⟩ := claimSubmission_cases c s.db
      · simp only [System.step, heq, Session.idle_committed] at hwait'
        simp only [System.emit, heq, List.mem_append, List.mem_map, reduceCtorEq, and_false, exists_false,
          List.mem_singleton, Event.claimed.injEq, false_or] at hmem
        rw [hmem.1]
        exact claim_before hnumbers hids hwait hnext hclaim hwait'
      · rw [System.emit_claim_eq_nil hreply] at hmem
        cases hmem
  | enqueue c => cases hmem
  | complete c =>
      simp only [System.emit] at hmem
      split at hmem
      · simp at hmem
      · cases hmem
  | requeueJob web id ok =>
      simp only [System.emit] at hmem
      split at hmem
      · simp at hmem
      · cases hmem
  | requeueClear web ok => cases hmem

/-- Each step hands out at most one job while `k` waits, and it leaves one job fewer before `k`. -/
theorem overtaking_step {s : System} {k : Int} (a : Action) (hnumbers : s.db.Numbered)
    (hids : s.db.sequence < 2 ^ 31) (hwait : s.db.Waits k) (hwait' : (s.step a).db.Waits k) :
    (s.emit a).countP Event.isClaim + (s.step a).db.waitingBefore k ≤
      s.db.waitingBefore k + (s.emit a).countP (Event.isReturnBefore k) := by
  cases a with
  | enqueue c =>
      simp only [System.step, System.emit, List.countP_nil, Nat.zero_add, Nat.add_zero]
      by_cases hstores : c.stores (.idle s.db) = true
      · obtain ⟨d', id, henqueue, heq⟩ := enqueueSubmission_of_stores hstores
        obtain ⟨-, row, hrow, -⟩ := hwait
        have hkey : row.submissionId = k := Db.submission_key hrow
        have hle := (hnumbers row (Table.find_mem hrow)).2
        have hid : id = s.db.sequence + 1 := (enqueue_sequence henqueue).1
        rw [heq]
        exact (waitingBefore_enqueue henqueue (by omega)).le
      · rw [enqueueSubmission_of_not_stores hstores]
        exact le_refl _
  | claim c =>
      obtain ⟨row, code, d', hnext, hclaim, heq⟩ | ⟨hcommitted, hreply⟩ := claimSubmission_cases c s.db
      · simp only [System.step, heq, Session.idle_committed] at hwait' ⊢
        have hclaimed := waitingBefore_claimJob (k := k) hclaim
          (claim_before hnumbers hids hwait hnext hclaim hwait')
        have hexpired := waitingBefore_afterExpiry (d := s.db) (k := k) c
        have hnone : ((s.db.expiredBy c).map Event.expired).countP Event.isClaim = 0 := by
          rw [List.countP_map]
          exact List.countP_eq_zero.mpr fun _ _ h => by cases h
        simp only [System.emit, heq, List.countP_append, List.countP_singleton, hnone, Event.isClaim,
          Event.isReturnBefore, ↓reduceIte, Bool.false_eq_true]
        omega
      · rw [System.emit_claim_eq_nil hreply]
        simp only [System.step, hcommitted]
        exact le_of_eq (by simp)
  | complete c =>
      obtain ⟨-, hheld, heq⟩ | ⟨-, hcommitted, hcode⟩ := completeSubmission_cases c s.db
      · simp only [System.step, System.emit, heq, ↓reduceIte, Session.idle_committed, List.countP_singleton,
          Event.isClaim, Event.isReturnBefore, Bool.false_eq_true, Nat.zero_add, Nat.add_zero]
        have hle : (s.db.finishJob c.id c.token).1.waitingBefore k ≤ s.db.waitingBefore k :=
          waitingBefore_updateJobs_le fun j => by simp
        exact hle
      · simp [System.step, System.emit, hcommitted, hcode]
  | requeueJob web id ok =>
      cases ok with
      | false => simp [System.step, System.emit, requeueFirst_idle]
      | true =>
          have hnone : (s.emit (.requeueJob web id true)).countP Event.isClaim = 0 := by
            simp only [System.emit]
            split <;> rfl
          rw [hnone, Nat.zero_add]
          exact waitingBefore_requeueJob s web id k
  | requeueClear web ok =>
      simp only [System.step, System.emit, List.countP_nil, Nat.zero_add, Nat.add_zero, requeueSecond_idle]
      cases s.pending web with
      | none => exact le_refl _
      | some id => cases ok <;> exact le_refl _

theorem sequence_system_step (s : System) (a : Action) : s.db.sequence ≤ (s.step a).db.sequence := by
  cases a with
  | enqueue c => exact (Db.Extends.enqueueSubmission s.db c).sequence
  | claim c => exact (submission_claimSubmission (k := 0) c).2.ge
  | complete c => exact (sequence_completeSubmission c).ge
  | requeueJob web id ok =>
      simp only [System.step, requeueFirst_idle]
      cases ok <;> exact le_refl _
  | requeueClear web ok =>
      simp only [System.step, requeueSecond_idle]
      cases s.pending web with
      | none => exact le_refl _
      | some id => cases ok <;> exact le_refl _

/-- While a job waits, only jobs before it are handed out, and no more of them than there were in the queue and
have come back to it since. -/
theorem overtaking_bounded (as bs : List Action) (k : Int) (hids : (after (as ++ bs)).db.sequence < 2 ^ 31)
    (hwaits : ∀ pre, pre <+: bs → (after (as ++ pre)).db.Waits k) :
    (∀ k' token, Event.claimed k' token ∈ history System.step System.emit (after as) bs → k' < k) ∧
      (history System.step System.emit (after as) bs).countP Event.isClaim ≤
        (after as).db.waitingBefore k +
          (history System.step System.emit (after as) bs).countP (Event.isReturnBefore k) := by
  suffices h : (∀ k' token, Event.claimed k' token ∈ history System.step System.emit (after as) bs → k' < k) ∧
      (history System.step System.emit (after as) bs).countP Event.isClaim +
        (after (as ++ bs)).db.waitingBefore k ≤ (after as).db.waitingBefore k +
          (history System.step System.emit (after as) bs).countP (Event.isReturnBefore k) from
    ⟨h.1, (Nat.le_add_right _ _).trans h.2⟩
  induction bs using List.reverseRecOn with
  | nil => simp
  | append_singleton bs a ih =>
      have hafter : after (as ++ (bs ++ [a])) = (after (as ++ bs)).step a := by
        rw [← List.append_assoc]
        exact run_snoc _ _
      have hrun : run System.step (after as) bs = after (as ++ bs) := (run_append as bs).symm
      have hbound : (after (as ++ bs)).db.sequence < 2 ^ 31 := by
        rw [hafter] at hids
        exact lt_of_le_of_lt (sequence_system_step _ a) hids
      have hwait := hwaits bs (List.prefix_append bs [a])
      have hwait' := hwaits (bs ++ [a]) (List.prefix_refl _)
      rw [hafter] at hwait'
      have hstep := overtaking_step a (numbered_after (as ++ bs)) hbound hwait hwait'
      obtain ⟨hbefore, hcount⟩ := ih hbound fun pre hpre => hwaits pre (hpre.trans (List.prefix_append bs [a]))
      rw [history_snoc, List.countP_append, List.countP_append, hrun, hafter]
      refine ⟨fun k' token hmem => ?_, by omega⟩
      rcases List.mem_append.mp hmem with hmem | hmem
      · exact hbefore k' token hmem
      · exact claimed_before_step a (numbered_after (as ++ bs)) hbound hwait hwait' k' token hmem

instance (d : Db) (k : Int) : Decidable (d.Waits k) :=
  decidable_of_iff ((d.job k).any (·.status = .queued) && (d.submission k).any (·.code.isSome) = true) (by
    simp [Db.Waits, Option.any_eq_true])

/-- The third of three jobs sees one job handed out, and there were two before it. -/
theorem overtaking_bounded_claim :
    (∀ k' token, Event.claimed k' token ∈
        history System.step System.emit (after [anEnqueue, anEnqueue, anEnqueue]) [aClaim "a" 0] → k' < 3) ∧
      (history System.step System.emit (after [anEnqueue, anEnqueue, anEnqueue]) [aClaim "a" 0]).countP
        Event.isClaim ≤ (after [anEnqueue, anEnqueue, anEnqueue]).db.waitingBefore 3 +
          (history System.step System.emit (after [anEnqueue, anEnqueue, anEnqueue]) [aClaim "a" 0]).countP
            (Event.isReturnBefore 3) := by
  refine overtaking_bounded [anEnqueue, anEnqueue, anEnqueue] [aClaim "a" 0] 3 (by decide) fun pre hpre => ?_
  rcases List.prefix_cons_iff.mp hpre with rfl | ⟨t, rfl, ht⟩
  · decide
  · rw [List.prefix_nil.mp ht]
    decide

end Tle.Queue
