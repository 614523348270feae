import Tle.Queue.Lemmas.Calls
import Tle.Queue.System

/-!
# Fencing: the claim tokens in the table are the holders in the history

The token in the row of a job being graded is what the lease log of the run says, after every step.
-/

namespace Tle.Queue
open Tle.Lib

/-- The token with which the job of `k` is being graded. -/
def Db.lease (d : Db) (k : Int) : Option Text :=
  (d.job k).bind fun j => if j.status = .grading then j.claimToken else none

namespace Db

variable {d d' : Db} {k : Int}

theorem held_iff {id : BitVec 32} {token : Text} :
    d.held id token = true ↔ d.lease (rowKey id) = some token := by
  unfold held lease
  cases d.job (rowKey id) with
  | none => simp
  | some j => by_cases h : j.status = .grading <;> simp [h]

theorem lease_congr (h : d'.job k = d.job k) : d'.lease k = d.lease k := by
  simp only [lease, h]

theorem mem_expiredBy {c : ClaimCall} : k ∈ d.expiredBy c ↔
    c.expire_ok = true ∧ ∃ j, d.job k = some j ∧ j.expired c.expiryNow = true := by
  unfold expiredBy
  cases c.expire_ok with
  | false => simp
  | true =>
      simp only [↓reduceIte, List.mem_map, List.mem_filter, true_and]
      constructor
      · rintro ⟨j, ⟨hj, hexp⟩, rfl⟩
        exact ⟨j, d.gradingJobs.mem_rows_iff.mp hj, hexp⟩
      · rintro ⟨j, hj, hexp⟩
        have hkey := job_key hj
        subst hkey
        exact ⟨j, ⟨d.gradingJobs.mem_rows_iff.mpr hj, hexp⟩, rfl⟩

/-! ## What each statement does to the leases -/

theorem lease_afterExpiry (c : ClaimCall) :
    (d.afterExpiry c).lease k = if k ∈ d.expiredBy c then none else d.lease k := by
  by_cases hok : c.expire_ok = true
  · simp only [afterExpiry, hok, ↓reduceIte, lease, job_expireJobs, mem_expiredBy, true_and]
    cases hj : d.job k with
    | none => simp
    | some j => by_cases hexp : j.expired c.expiryNow = true <;> simp [hexp, GradingJob.requeue]
  · simp [afterExpiry, hok, mem_expiredBy]

theorem lease_claimJob {id : BitVec 32} {token : Text} {now : Int}
    (h : d.claimJob id token now = (d', 1)) :
    d'.lease k = if k = rowKey id then some token else d.lease k := by
  have hchanges := @changes_claimJob d id token now
  have hjob := @job_claimJob d k id token now
  rw [h] at hchanges hjob
  by_cases hk : k = rowKey id
  · subst hk
    simp only [↓reduceIte] at hjob ⊢
    cases hj : d.job (rowKey id) with
    | none => simp [hj] at hchanges
    | some j =>
        have hqueued : j.status = .queued := by
          by_contra hne
          simp [hj, hne] at hchanges
        simp [lease, hjob, hj, hqueued]
  · simp only [hk, ↓reduceIte] at hjob ⊢
    exact lease_congr hjob

theorem lease_complete {c : CompleteCall} (h : d.held c.id c.token = true) :
    (d.complete c).lease k = if k = rowKey c.id then none else d.lease k := by
  have hjob : (d.complete c).job k = (d.finishJob c.id c.token).1.job k := job_updateSubmissions
  rw [job_finishJob] at hjob
  by_cases hk : k = rowKey c.id
  · subst hk
    simp only [↓reduceIte] at hjob ⊢
    rw [held] at h
    cases hj : d.job (rowKey c.id) with
    | none => simp [hj] at h
    | some j =>
        have hheld : j.claimToken = some c.token ∧ j.status = .grading := by simpa [hj] using h
        simp [lease, hjob, hj, hheld]
  · simp only [hk, ↓reduceIte] at hjob ⊢
    exact lease_congr hjob

theorem lease_requeueJob {id : BitVec 32} :
    (d.requeueJob id).1.lease k = if k = rowKey id then none else d.lease k := by
  have hjob := @job_requeueJob d k id
  by_cases hk : k = rowKey id
  · simp only [hk, ↓reduceIte] at hjob ⊢
    rw [lease, hjob]
    cases d.job (rowKey id) with
    | none => rfl
    | some j => cases hs : j.status <;> simp [hs, GradingJob.requeue]
  · simp only [hk, ↓reduceIte] at hjob ⊢
    exact lease_congr hjob

theorem lease_of_requeueJob_zero {id : BitVec 32} (h : (d.requeueJob id).2 = 0) :
    d.lease (rowKey id) = none := by
  rw [changes_requeueJob] at h
  unfold lease
  cases hj : d.job (rowKey id) with
  | none => rfl
  | some j => cases hs : j.status <;> simp [hj, hs] at h ⊢

theorem lease_enqueue {userId taskPk code isPublic} {d₁ d₂ : Db} {id : Int} {u : Unit}
    (h₁ : d.insertSubmission userId taskPk code isPublic = some (d₁, id))
    (h₂ : d₁.insertJob id = some (d₂, u)) : d₂.lease k = d.lease k := by
  obtain ⟨hjob₁, -⟩ := insertSubmission_spec h₁
  obtain ⟨hnew, -, hjob₂⟩ := insertJob_spec h₂
  have hjob := hjob₂ k
  by_cases hk : id = k
  · subst hk
    simp only [↓reduceIte] at hjob
    rw [hjob₁] at hnew
    simp [lease, hjob, hnew]
  · simp only [hk, ↓reduceIte, hjob₁] at hjob
    exact lease_congr hjob

end Db

/-! ## The events of one step -/

/-- The leases of the tables are those of the history, and only holders have completed. -/
structure Fenced (es : List Event) (d : Db) : Prop where
  lease : ∀ k, d.lease k = Lease.holder (es.map Event.lease) k
  legal : Lease.Legal (es.map Event.lease)

namespace Fenced

variable {es : List Event} {d d' : Db}

theorem init : Fenced [] Db.empty :=
  ⟨fun _ => rfl, fun pre post k t h => by simp at h⟩

/-- A step without events keeps the leases. -/
theorem silent (h : Fenced es d) (hlease : ∀ k, d'.lease k = d.lease k) : Fenced (es ++ []) d' := by
  rw [List.append_nil]
  exact ⟨fun k => (hlease k).trans (h.lease k), h.legal⟩

theorem snoc (h : Fenced es d) (e : Event) (hlease : ∀ k, d'.lease k =
    if e.lease.key = k then e.lease.holder else d.lease k)
    (hlegal : ∀ k t, e.lease = .finish k t → d.lease k = some t) : Fenced (es ++ [e]) d' := by
  refine ⟨fun k => ?_, ?_⟩
  · rw [hlease, List.map_append, List.map_singleton, Lease.holder_snoc, h.lease]
  · rw [List.map_append, List.map_singleton]
    apply h.legal.snoc
    intro k t he
    exact Lease.holder_eq_some_iff.mp ((h.lease k).symm.trans (hlegal k t he))

theorem expire (h : Fenced es d) (c : ClaimCall) :
    Fenced (es ++ (d.expiredBy c).map .expired) (d.afterExpiry c) := by
  have hmap : ((d.expiredBy c).map Event.expired).map Event.lease =
      (d.expiredBy c).map LeaseEvent.revoke := by
    rw [List.map_map]; rfl
  refine ⟨fun k => ?_, ?_⟩
  · rw [List.map_append, hmap, Lease.holder_append_revokes, Db.lease_afterExpiry, h.lease]
  · rw [List.map_append, hmap]
    exact h.legal.append_revokes _

theorem enqueue (h : Fenced es d) (c : EnqueueCall) :
    Fenced (es ++ []) (enqueueSubmission c (.idle d)).1.committed := by
  obtain ⟨_, _, _, _, _, _, h₁, h₂, heq⟩ | ⟨hcommitted, -⟩ := enqueueSubmission_cases c d
  · rw [heq]
    exact h.silent fun k => Db.lease_enqueue h₁ h₂
  · rw [hcommitted]
    exact h.silent fun _ => rfl

theorem claim (h : Fenced es d) (c : ClaimCall) (p : Nat → Option (BitVec 32)) :
    Fenced (es ++ System.emit ⟨d, p⟩ (.claim c)) (claimSubmission c (.idle d)).1.committed := by
  obtain ⟨row, code, d', -, hclaim, heq⟩ | ⟨hcommitted, hreply⟩ := claimSubmission_cases c d
  · simp only [System.emit, heq]
    rw [← List.append_assoc]
    refine (h.expire c).snoc _ (fun k => ?_) (fun _ _ he => by cases he)
    rw [Session.idle_committed, Db.lease_claimJob hclaim]
    exact if_congr eq_comm rfl rfl
  · rw [hcommitted, System.emit_claim_eq_nil hreply]
    exact h.silent fun _ => rfl

theorem complete (h : Fenced es d) (c : CompleteCall) (p : Nat → Option (BitVec 32)) :
    Fenced (es ++ System.emit ⟨d, p⟩ (.complete c)) (completeSubmission c (.idle d)).1.committed := by
  obtain ⟨-, hheld, heq⟩ | ⟨-, hcommitted, hcode⟩ := completeSubmission_cases c d
  · simp only [System.emit, heq, ↓reduceIte]
    refine h.snoc _ (fun k => ?_) ?_
    · rw [Session.idle_committed, Db.lease_complete hheld]
      exact if_congr eq_comm rfl rfl
    · intro k t he
      cases he
      exact Db.held_iff.mp hheld
  · rw [hcommitted]
    simp only [System.emit, hcode]
    exact h.silent fun _ => rfl

theorem requeueJob (h : Fenced es d) (web : Nat) (id : BitVec 32) (ok : Bool)
    (p : Nat → Option (BitVec 32)) :
    Fenced (es ++ System.emit ⟨d, p⟩ (.requeueJob web id ok))
      (requeueFirst ok id (.idle d)).1.committed := by
  simp only [System.emit, requeueFirst_idle]
  cases ok
  · exact h.silent fun _ => rfl
  simp only [↓reduceIte, Option.any_some, decide_eq_true_eq]
  split
  · refine h.snoc _ (fun k => ?_) (fun _ _ he => by cases he)
    rw [Session.idle_committed, Db.lease_requeueJob]
    exact if_congr eq_comm rfl rfl
  · rename_i hzero
    apply h.silent
    intro k
    rw [Session.idle_committed, Db.lease_requeueJob]
    split
    · rename_i hk
      rw [hk]
      exact (Db.lease_of_requeueJob_zero (by omega)).symm
    · rfl

theorem step (h : Fenced es d) (a : Action) (p : Nat → Option (BitVec 32)) :
    Fenced (es ++ System.emit ⟨d, p⟩ a) (System.step ⟨d, p⟩ a).db := by
  cases a with
  | enqueue c => exact h.enqueue c
  | claim c => exact h.claim c p
  | complete c => exact h.complete c p
  | requeueJob web id ok => exact h.requeueJob web id ok p
  | requeueClear web ok =>
      apply h.silent
      intro k
      simp only [System.step]
      split
      · rfl
      · cases ok <;> rfl

end Fenced

theorem fenced (as : List Action) : Fenced (events as) (after as).db := by
  have keep : ∀ es (s : System) a, Fenced es s.db → Fenced (es ++ s.emit a) (s.step a).db :=
    fun es s a h => h.step a s.pending
  exact run_invariant (P := fun es (s : System) => Fenced es s.db) Fenced.init keep as

/-- A job is held exactly by the token of its current claim. -/
theorem held_iff_current (as : List Action) (id : BitVec 32) (token : Text) :
    (after as).db.held id token = true ↔ Current (events as) id token := by
  rw [Db.held_iff, (fenced as).lease]
  exact Lease.holder_eq_some_iff

/-! ## The tokens of a run -/

theorem granted_emit (s : System) (a : Action) :
    (Lease.granted ((System.emit s a).map Event.lease)).Sublist (claimTokens [a]) := by
  cases a with
  | enqueue c => exact List.Sublist.slnil
  | claim c =>
      obtain ⟨row, code, d', -, -, heq⟩ | ⟨-, hreply⟩ := claimSubmission_cases c s.db
      · simp [System.emit, heq, Lease.granted, claimTokens, SubmissionJob.read, Event.lease,
          LeaseEvent.granted?, Function.comp_def]
      · rw [System.emit_claim_eq_nil hreply]
        exact List.nil_sublist _
  | complete c => simp only [System.emit]; split <;> exact List.nil_sublist _
  | requeueJob web id ok => simp only [System.emit]; split <;> exact List.nil_sublist _
  | requeueClear web ok => exact List.Sublist.slnil

theorem granted_sublist (as : List Action) :
    (Lease.granted ((events as).map Event.lease)).Sublist (claimTokens as) := by
  induction as using List.reverseRecOn with
  | nil => exact List.Sublist.slnil
  | append_singleton as a ih =>
      have hevents : events (as ++ [a]) = events as ++ System.emit (after as) a :=
        history_snoc as a
      rw [hevents, List.map_append, Lease.granted, List.filterMap_append, claimTokens,
        List.filterMap_append]
      exact ih.append (granted_emit (after as) a)

end Tle.Queue
