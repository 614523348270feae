import Tle.Queue.Lemmas.Calls
import Tle.Queue.System

/-!
# Rejudging: which steps keep jobs and results together
-/

namespace Tle.Queue
open Tle.Lib

def Db.Finished (d : Db) (k : Int) : Prop := ∃ j, d.job k = some j ∧ j.status = .finished

/-- A finished job's submission carries the verdict of its last completion, any other job's none. -/
def Consistent (es : List Event) (d : Db) : Prop :=
  ∀ k j s, d.job k = some j → d.submission k = some s →
    if j.status = .finished then s.verdict = lastVerdict es k ∧ s.verdict ≠ none
    else s.verdict = none

/-- The step is no requeue statement that takes effect on a finished job. -/
def Undisturbed (s : System) : Action → Prop
  | .requeueJob _ id ok => ok = true → ¬ s.db.Finished (rowKey id)
  | .requeueClear web ok => ok = true → ∀ id, s.pending web = some id → ¬ s.db.Finished (rowKey id)
  | _ => True

/-! ## The last verdict -/

section LastVerdict

variable {es es' : List Event} {k k' : Int} {token verdict : Text}

theorem lastVerdict_append_silent (h : ∀ e ∈ es', e.verdict? = none) :
    lastVerdict (es ++ es') k = lastVerdict es k := by
  unfold lastVerdict
  rw [List.filterMap_append, List.filterMap_eq_nil_iff.mpr h, List.append_nil]

theorem lastVerdict_completed : lastVerdict (es ++ [.completed k' token verdict]) k =
    if k' = k then some verdict else lastVerdict es k := by
  have hlast : [Event.completed k' token verdict].filterMap Event.verdict? = [(k', verdict)] := rfl
  simp only [lastVerdict, List.filterMap_append, hlast, List.reverse_append, List.reverse_singleton,
    List.singleton_append, List.find?_cons]
  by_cases hk : k' = k <;> simp [hk]

end LastVerdict

namespace Consistent

variable {es es' : List Event} {d d' : Db}

theorem init : Consistent [] Db.empty := by
  intro k j s hj
  simp at hj

/-- A step that writes no result and finishes or reopens no job. -/
theorem frame (h : Consistent es d) (hes : ∀ e ∈ es', e.verdict? = none)
    (hjob : ∀ k j', d'.job k = some j' →
      ∃ j, d.job k = some j ∧ (j'.status = .finished ↔ j.status = .finished))
    (hsub : ∀ k, d'.submission k = d.submission k) : Consistent (es ++ es') d' := by
  intro k j' s hj' hs
  obtain ⟨j, hj, hstatus⟩ := hjob k j' hj'
  have hold := h k j s hj ((hsub k).symm.trans hs)
  rw [lastVerdict_append_silent hes]
  simpa only [hstatus] using hold

theorem silent (h : Consistent es d) : Consistent (es ++ []) d := by
  rwa [List.append_nil]

theorem enqueue (h : Consistent es d) (c : EnqueueCall) :
    Consistent (es ++ []) (enqueueSubmission c (.idle d)).1.committed := by
  obtain ⟨_, _, _, _, id, _, h₁, h₂, heq⟩ | ⟨hcommitted, -⟩ := enqueueSubmission_cases c d
  · rw [heq, List.append_nil]
    obtain ⟨hjob₁, hsub₁⟩ := Db.insertSubmission_spec h₁
    obtain ⟨-, hsub₂, hjob₂⟩ := Db.insertJob_spec h₂
    intro k j s hj hs
    simp only [Session.idle_committed, hsub₂, hjob₂, hsub₁, hjob₁] at hj hs
    by_cases hk : id = k
    · simp only [hk, ↓reduceIte, Option.some.injEq] at hj hs
      subst hj hs
      simp
    · simp only [hk, ↓reduceIte] at hj hs
      exact h k j s hj hs
  · rw [hcommitted]
    exact h.silent

theorem expire (h : Consistent es d) (c : ClaimCall) :
    Consistent (es ++ (d.expiredBy c).map .expired) (d.afterExpiry c) := by
  refine h.frame (by simp [Event.verdict?]) (fun k j' hj' => ?_) (fun k => ?_)
  · unfold Db.afterExpiry at hj'
    cases hok : c.expire_ok
    · rw [hok] at hj'
      exact ⟨j', hj', Iff.rfl⟩
    · simp only [hok, ↓reduceIte, Db.job_expireJobs, Option.map_eq_some_iff] at hj'
      obtain ⟨j, hj, rfl⟩ := hj'
      refine ⟨j, hj, ?_⟩
      split
      · rename_i hexp
        have hgrading : j.status = .grading := by
          simpa using (Bool.and_eq_true_iff.mp hexp).1
        simp [GradingJob.requeue, hgrading]
      · rfl
  · unfold Db.afterExpiry
    cases c.expire_ok <;> rfl

theorem claim (h : Consistent es d) (c : ClaimCall) (p : Nat → Option (BitVec 32)) :
    Consistent (es ++ System.emit ⟨d, p⟩ (.claim c)) (claimSubmission c (.idle d)).1.committed := by
  obtain ⟨row, code, d', -, hclaim, heq⟩ | ⟨hcommitted, hreply⟩ := claimSubmission_cases c d
  · simp only [System.emit, heq]
    rw [← List.append_assoc]
    have hd' : d' = ((d.afterExpiry c).claimJob (columnInt row.submissionId) c.token c.claimNow).1 := by
      rw [hclaim]
    refine (h.expire c).frame (by simp [Event.verdict?]) (fun k j' hj' => ?_) (fun k => ?_)
    · simp only [Session.idle_committed, hd', Db.job_claimJob] at hj'
      split at hj'
      · obtain ⟨j, hj, rfl⟩ := Option.map_eq_some_iff.mp hj'
        refine ⟨j, hj, ?_⟩
        split
        · rename_i hqueued
          simp [hqueued]
        · rfl
      · exact ⟨j', hj', Iff.rfl⟩
    · simp only [Session.idle_committed, hd']
      rfl
  · rw [hcommitted, System.emit_claim_eq_nil hreply]
    exact h.silent

theorem complete (h : Consistent es d) (c : CompleteCall) (p : Nat → Option (BitVec 32)) :
    Consistent (es ++ System.emit ⟨d, p⟩ (.complete c))
      (completeSubmission c (.idle d)).1.committed := by
  obtain ⟨-, hheld, heq⟩ | ⟨-, hcommitted, hcode⟩ := completeSubmission_cases c d
  · simp only [System.emit, heq, ↓reduceIte]
    intro k j s hj hs
    change (d.complete c).job k = some j at hj
    change (d.complete c).submission k = some s at hs
    rw [lastVerdict_completed]
    have hjob : (d.complete c).job k = (d.finishJob c.id c.token).1.job k := Db.job_updateSubmissions
    have hsub : (d.complete c).submission k = if k = rowKey c.id
        then (d.submission k).map (Submission.withReport c.report) else d.submission k :=
      Db.submission_storeResult
    rw [hjob, Db.job_finishJob] at hj
    rw [hsub] at hs
    by_cases hk : k = rowKey c.id
    · subst hk
      simp only [↓reduceIte, Option.map_eq_some_iff] at hj hs
      obtain ⟨j₀, hj₀, rfl⟩ := hj
      obtain ⟨s₀, -, rfl⟩ := hs
      have hholds : j₀.claimToken = some c.token ∧ j₀.status = .grading := by
        simpa [Db.held, hj₀] using hheld
      simp [hholds, Submission.withReport]
    · have hk' : rowKey c.id ≠ k := Ne.symm hk
      simp only [hk, hk', ↓reduceIte] at hj hs ⊢
      exact h k j s hj hs
  · rw [hcommitted]
    simp only [System.emit, hcode]
    exact h.silent

theorem verdict_of_finished (h : Consistent es d) {k : Int} (hfin : d.Finished k) :
    ∃ j s, d.job k = some j ∧ j.status = .finished ∧ d.submission k = some s ∧
      s.verdict ≠ none := by
  obtain ⟨j, hj, hstatus⟩ := hfin
  obtain ⟨s, hs⟩ := d.references k j hj
  have hrow := h k j s hj hs
  rw [if_pos hstatus] at hrow
  exact ⟨j, s, hj, hstatus, hs, hrow.2⟩

theorem requeueJob_iff (h : Consistent es d) (hes : ∀ e ∈ es', e.verdict? = none)
    (id : BitVec 32) : Consistent (es ++ es') (d.requeueJob id).1 ↔ ¬ d.Finished (rowKey id) := by
  constructor
  · intro hafter hfin
    obtain ⟨j, s, hj, hstatus, hs, hverdict⟩ := h.verdict_of_finished hfin
    have hjob : (d.requeueJob id).1.job (rowKey id) = some j.requeue := by
      simp [Db.job_requeueJob, hj, hstatus]
    have hrow := hafter (rowKey id) j.requeue s hjob hs
    exact hverdict (by simpa [GradingJob.requeue] using hrow)
  · intro hnot
    refine h.frame hes (fun k j' hj' => ?_) (fun _ => rfl)
    rw [Db.job_requeueJob] at hj'
    split at hj'
    · rename_i hk
      subst hk
      obtain ⟨j, hj, rfl⟩ := Option.map_eq_some_iff.mp hj'
      have hstatus : j.status ≠ .finished := fun hf => hnot ⟨j, hj, hf⟩
      refine ⟨j, hj, ?_⟩
      split <;> simp [GradingJob.requeue, hstatus]
    · exact ⟨j', hj', Iff.rfl⟩

theorem clearResult_iff (h : Consistent es d) (id : BitVec 32) :
    Consistent es (d.clearResult id).1 ↔ ¬ d.Finished (rowKey id) := by
  have hjob : ∀ k, (d.clearResult id).1.job k = d.job k := fun _ => rfl
  constructor
  · intro hafter hfin
    obtain ⟨j, s, hj, hstatus, hs, -⟩ := h.verdict_of_finished hfin
    have hsub : (d.clearResult id).1.submission (rowKey id) = some s.withoutResult := by
      simp [Db.submission_clearResult, hs]
    have hrow := hafter (rowKey id) j s.withoutResult hj hsub
    rw [if_pos hstatus] at hrow
    exact hrow.2 rfl
  · intro hnot k j s hj hs
    rw [hjob] at hj
    rw [Db.submission_clearResult] at hs
    split at hs
    · rename_i hk
      subst hk
      obtain ⟨s₀, hs₀, rfl⟩ := Option.map_eq_some_iff.mp hs
      rw [if_neg (fun hf => hnot ⟨j, hj, hf⟩)]
      rfl
    · exact h k j s hj hs

/-- A step keeps jobs and results together exactly when it is undisturbed. -/
theorem step_iff (s : System) (h : Consistent es s.db) (a : Action) :
    Consistent (es ++ s.emit a) (s.step a).db ↔ Undisturbed s a := by
  cases a with
  | enqueue c => exact iff_of_true (h.enqueue c) trivial
  | claim c => exact iff_of_true (h.claim c s.pending) trivial
  | complete c => exact iff_of_true (h.complete c s.pending) trivial
  | requeueJob web id ok =>
      have hes : ∀ e ∈ s.emit (.requeueJob web id ok), e.verdict? = none := by
        simp only [System.emit]
        split <;> simp [Event.verdict?]
      cases ok with
      | false =>
          refine iff_of_true (h.frame hes (fun _ j hj => ⟨j, hj, Iff.rfl⟩) (fun _ => rfl)) ?_
          exact fun hok => absurd hok Bool.false_ne_true
      | true => exact (h.requeueJob_iff hes id).trans (by simp [Undisturbed])
  | requeueClear web ok =>
      cases hp : s.pending web with
      | none =>
          refine iff_of_true ?_ (by simp [Undisturbed, hp])
          simpa [System.step, System.emit, hp] using h
      | some id =>
          cases ok with
          | false =>
              refine iff_of_true ?_ (fun hok => absurd hok Bool.false_ne_true)
              simpa [System.step, System.emit, hp, requeueSecond_idle] using h
          | true =>
              have hstep : (s.step (.requeueClear web true)).db = (s.db.clearResult id).1 := by
                simp [System.step, hp, requeueSecond_idle]
              rw [hstep]
              simp only [System.emit, List.append_nil, h.clearResult_iff, Undisturbed, hp,
                Option.some.injEq, forall_eq', true_implies]

end Consistent

end Tle.Queue
