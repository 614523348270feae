import Tle.Queue.Connections

/-!
# The loop of the grader's `main`

A grader polls for a job, grades it and reports the outcome, whatever the calls return. Every process has
its own connection; the web processes enqueue and requeue. A grader that dies forgets its job, and another
one starts in its place.
-/

namespace Tle.Queue
open Tle.Lib

/-- What a call of `grade` leaves: its return value and its out-parameters. -/
structure GradeOutcome where
  rc : Int
  report : Report

/-- What `main` passes to `complete_submission`. -/
def GradeOutcome.reported (o : GradeOutcome) : Report :=
  if o.rc ≠ 0 then { o.report with result := "internal error: grading failed".toList } else o.report

inductive Phase where
  | polling
  | grading (job : SubmissionJob)
  | reporting (job : SubmissionJob) (report : Report)

/-- The calls of a web process. -/
inductive WebCall where
  | enqueue (c : EnqueueCall)
  | requeueJob (id : BitVec 32) (ok : Bool)
  | requeueClear (ok : Bool)

def WebCall.call : WebCall → Call
  | enqueue c => .enqueue c
  | requeueJob id ok => .requeueJob id ok
  | requeueClear ok => .requeueClear ok

/-- The call that reports on `job`; its statements go as those of `c`. -/
def SubmissionJob.completion (job : SubmissionJob) (report : Report) (c : CompleteCall) : CompleteCall :=
  { c with id := job.submissionId, report, token := job.claimToken }

/-- What a process does next. A step that does not come next in its loop does nothing. -/
inductive Turn where
  | web (call : WebCall)
  | poll (c : ClaimCall)
  | grade (outcome : GradeOutcome)
  | report (c : CompleteCall)
  | restart

structure Workers where
  conns : Connections
  phase : Nat → Phase

namespace Workers

def init : Workers := ⟨Connections.init, fun _ => .polling⟩

def enter (w : Workers) (p : Nat) (phase : Phase) : Workers :=
  { w with phase := Function.update w.phase p phase }

def call (w : Workers) (p : Nat) (a : Call) : Workers := { w with conns := w.conns.step (p, a) }

def step (w : Workers) : Nat × Turn → Workers
  | (p, .web a) => w.call p a.call
  | (p, .poll c) =>
      match w.phase p with
      | .polling =>
          match (claimSubmission c (w.conns.session p)).2 with
          | .claimed job => (w.call p (.claim c)).enter p (.grading job)
          | _ => w.call p (.claim c)
      | _ => w
  | (p, .grade outcome) =>
      match w.phase p with
      | .grading job => w.enter p (.reporting job outcome.reported)
      | _ => w
  | (p, .report c) =>
      match w.phase p with
      | .reporting job report => (w.call p (.complete (job.completion report c))).enter p .polling
      | _ => w
  | (p, .restart) => (w.call p .restart).enter p .polling

/-- The gradings that a step carries out: the job and what `grade` leaves. -/
def emit (w : Workers) : Nat × Turn → List (SubmissionJob × GradeOutcome)
  | (p, .grade outcome) =>
      match w.phase p with
      | .grading job => [(job, outcome)]
      | _ => []
  | _ => []

end Workers

def workersAfter (as : List (Nat × Turn)) : Workers := run Workers.step Workers.init as

def gradings (as : List (Nat × Turn)) : List (SubmissionJob × GradeOutcome) :=
  history Workers.step Workers.emit Workers.init as

/-- A step leaves the connections as they are or makes one call; it enqueues for a web process only. -/
theorem Workers.conns_step (w : Workers) (a : Nat × Turn) :
    (w.step a).conns = w.conns ∨ ∃ c : Call, (w.step a).conns = w.conns.step (a.1, c) ∧
      ∀ e, c = .enqueue e → a.2 = .web (.enqueue e) := by
  obtain ⟨p, a⟩ := a
  cases a with
  | web a =>
      refine Or.inr ⟨a.call, rfl, fun e he => ?_⟩
      cases a <;> cases he
      rfl
  | poll c =>
      cases hphase : w.phase p with
      | polling =>
          refine Or.inr ⟨.claim c, ?_, fun _ he => by cases he⟩
          cases hreply : (claimSubmission c (w.conns.session p)).2 with
          | failed => simp only [step, hphase, hreply, call]
          | nothing => simp only [step, hphase, hreply, call]
          | claimed job => simp only [step, hphase, hreply, call, enter]
      | grading job => exact Or.inl (by simp only [step, hphase])
      | reporting job report => exact Or.inl (by simp only [step, hphase])
  | grade outcome =>
      apply Or.inl
      cases hphase : w.phase p with
      | grading job => simp only [step, hphase, enter]
      | polling => simp only [step, hphase]
      | reporting job report => simp only [step, hphase]
  | report c =>
      cases hphase : w.phase p with
      | reporting job report =>
          refine Or.inr ⟨.complete (job.completion report c), ?_, fun _ he => by cases he⟩
          simp only [step, hphase, call, enter]
      | polling => exact Or.inl (by simp only [step, hphase])
      | grading job => exact Or.inl (by simp only [step, hphase])
  | restart => exact Or.inr ⟨.restart, rfl, fun _ he => by cases he⟩

/-- The connections of the workers take a run of their own. -/
theorem workersAfter_conns (as : List (Nat × Turn)) :
    ∃ bs, (workersAfter as).conns = connectionsAfter bs := by
  refine run_simulated (R := fun (w : Workers) (s : Connections) => w.conns = s) rfl ?_ as
  intro w s a h
  obtain hsame | ⟨c, hc, -⟩ := w.conns_step a
  · exact ⟨[], hsame.trans h⟩
  · exact ⟨[(a.1, c)], hc.trans (by rw [h]; rfl)⟩

end Tle.Queue
