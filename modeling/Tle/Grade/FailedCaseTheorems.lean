import Tle.Grade.Lemmas.Markers
import Tle.Queue.Theorems

/-!
# The case number on its way from the grader to the stored row
-/

namespace Tle.Grade
open Tle.Lib Tle.Queue

/-- The failures that a contestant's program causes. -/
inductive Failure where
  | wrongAnswer
  | timeLimit
  | memoryLimit
  | signal (subexitsig : Int)
  | exitcode (subexitcode : Int)
  deriving DecidableEq

namespace Failure

/-- What `grade` writes for the failure of case `k`. -/
def message (k : Nat) : Failure → Text
  | wrongAnswer => Grade.wrongAnswer k
  | timeLimit => timeLimitExceeded k
  | memoryLimit => memoryLimitExceeded k
  | signal subexitsig => withCode "signal" subexitsig k
  | exitcode subexitcode => withCode "exitcode" subexitcode k

def verdict : Failure → Text
  | wrongAnswer => "wrong_answer".toList
  | timeLimit => "time_limit".toList
  | memoryLimit => "memory_limit".toList
  | signal _ => "runtime_error".toList
  | exitcode _ => "runtime_error".toList

/-- The failure is neither a signal nor an exit code. -/
def Numbered : Failure → Prop
  | signal _ | exitcode _ => False
  | _ => True

variable (f : Failure) (k : Nat)

theorem gradeMessage : GradeMessage k (f.message k) := by
  cases f with
  | wrongAnswer => exact .wrongAnswer
  | timeLimit => exact .timeLimit
  | memoryLimit => exact .memoryLimit
  | signal subexitsig => exact .signal subexitsig
  | exitcode subexitcode => exact .exitcode subexitcode

/-- The row names the case and the kind of the failure. -/
def RecordedIn (row : Submission) : Prop :=
  row.failedCase = some (k : Int) ∧ row.verdict = some f.verdict

/-! ## Reading the message back -/

variable {f k}

theorem parseVerdict_numbered (hf : f.Numbered) (hk : k < 2 ^ 31) :
    parseVerdict (f.message k) = (f.verdict, (k : Int)) := by
  rw [← toInt32_clampLong hk]
  cases f with
  | wrongAnswer => exact parseVerdict_wrongAnswer k
  | timeLimit => exact parseVerdict_timeLimit k
  | memoryLimit => exact parseVerdict_memoryLimit k
  | signal subexitsig => exact absurd hf id
  | exitcode subexitcode => exact absurd hf id

/-- The prefix tells the verdict, and the number after it is not read. -/
theorem parseVerdict_not_numbered (hf : ¬f.Numbered) : parseVerdict (f.message k) = (f.verdict, -1) := by
  cases f with
  | signal subexitsig => rfl
  | exitcode subexitcode => rfl
  | wrongAnswer => exact absurd trivial hf
  | timeLimit => exact absurd trivial hf
  | memoryLimit => exact absurd trivial hf

theorem recordedIn_withReport_iff (hk : k < 2 ^ 31) {r : Report} (hresult : r.result = f.message k)
    (row : Submission) : f.RecordedIn k (row.withReport r) ↔ f.Numbered := by
  by_cases hf : f.Numbered
  · have hnonneg : ¬((k : Int) < 0) := by omega
    simp [RecordedIn, Submission.withReport, hresult, parseVerdict_numbered hf hk, hnonneg, hf]
  · simp [RecordedIn, Submission.withReport, hresult, parseVerdict_not_numbered hf, hf]

/-- A completed submission records its failing case exactly when the failure is neither a signal nor an
exit code. -/
theorem recorded_iff {d : Db} {c : CompleteCall} (hk : k < 2 ^ 31)
    (hresult : c.report.result = f.message k) (hzero : (completeSubmission c (.idle d)).2 = 0) :
    (∃ row, (completeSubmission c (.idle d)).1.committed.submission (rowKey c.id) = some row ∧
      f.RecordedIn k row) ↔ f.Numbered := by
  obtain ⟨hok, hheld, heq⟩ | ⟨-, -, hminus⟩ := completeSubmission_cases c d
  · obtain ⟨-, old, -, hrow⟩ := (stores_iff_held hok).mpr hheld
    simp only [hrow, Option.some.injEq, exists_eq_left', recordedIn_withReport_iff hk hresult]
  · rw [hminus] at hzero
    cases hzero

/-- A submission that a grader has claimed. -/
def claimed : Db := (after [anEnqueue, aClaim "a" 0]).db

def completion (f : Failure) (k : Nat) : CompleteCall where
  id := 1
  token := "a".toList
  report := { aReport "" with result := f.message k }

theorem recorded_timeLimit : ∃ row,
    (completeSubmission (completion timeLimit 12) (.idle claimed)).1.committed.submission 1 = some row ∧
      timeLimit.RecordedIn 12 row :=
  (recorded_iff (f := timeLimit) (d := claimed) (c := completion timeLimit 12) (by decide) rfl
    (by decide)).mpr trivial

theorem not_recorded : ¬ ∀ (f : Failure) (k : Nat) (d : Db) (c : CompleteCall), 1 ≤ k → k < 2 ^ 31 →
    c.report.result = f.message k → (completeSubmission c (.idle d)).2 = 0 →
      ∃ row, (completeSubmission c (.idle d)).1.committed.submission (rowKey c.id) = some row ∧
        f.RecordedIn k row := by
  intro h
  obtain ⟨row, hrow, hcase, -⟩ := h (signal 11) 1 claimed (completion (signal 11) 1) (by decide)
    (by decide) rfl (by decide)
  have hnull : ((completeSubmission (completion (signal 11) 1) (.idle claimed)).1.committed.submission
      (rowKey (completion (signal 11) 1).id)).map (·.failedCase) = some none := by decide
  rw [hrow, Option.map_some, hcase] at hnull
  cases hnull

end Failure

end Tle.Grade
