import Tle.Queue.Lemmas.JobRows

/-!
# The rows of the submissions

Which rows can stand in the table after any calls, and what an insert leaves as it was.
-/

namespace Tle.Queue
open Tle.Lib

/-! ## What holds of every row -/

/-- A property of a row that inserts and updates keep; it may relate the row to the numbers used so far. -/
structure RowProperty where
  holds : Int → Submission → Prop
  inserted : ∀ (c : EnqueueCall) n, 0 ≤ n → holds (n + 1) (c.row (n + 1))
  later : ∀ n s, holds n s → holds (n + 1) s
  reported : ∀ n s r, holds n s → holds n (s.withReport r)
  cleared : ∀ n s, holds n s → holds n s.withoutResult

structure Db.Rows (P : RowProperty) (d : Db) : Prop where
  sequence : 0 ≤ d.sequence
  rows : ∀ k s, d.submission k = some s → P.holds d.sequence s

namespace Db.Rows

variable {P : RowProperty} {d : Db}

theorem empty : Db.empty.Rows P := ⟨le_refl 0, fun _ _ h => by cases h⟩

theorem of_eq {d' : Db} (h : d.Rows P) (hsequence : d'.sequence = d.sequence)
    (hsub : ∀ k, d'.submission k = d.submission k) : d'.Rows P :=
  ⟨by rw [hsequence]; exact h.sequence, fun k s hs => by
    rw [hsub] at hs
    rw [hsequence]
    exact h.rows k s hs⟩

theorem updateSubmissions {p f hf} (h : d.Rows P) (hkeep : ∀ s, P.holds d.sequence s → P.holds d.sequence (f s)) :
    (d.updateSubmissions p f hf).1.Rows P where
  sequence := h.sequence
  rows k s hs := by
    rw [submission_updateSubmissions, Option.map_eq_some_iff] at hs
    obtain ⟨s₀, hs₀, rfl⟩ := hs
    split
    · exact hkeep s₀ (h.rows k s₀ hs₀)
    · exact h.rows k s₀ hs₀

theorem enqueue {c : EnqueueCall} {d' : Db} {id : Int} (h : d.Rows P) (henqueue : d.enqueue c = some (d', id)) :
    d'.Rows P := by
  obtain ⟨_, _, d₁, _, h₁, h₂⟩ := enqueue_eq_some henqueue
  obtain ⟨hid, hsequence₁⟩ := insertSubmission_sequence h₁
  have hsequence : d'.sequence = d.sequence + 1 := (insertJob_sequence h₂).trans hsequence₁
  have hpos := h.sequence
  refine ⟨by omega, fun k s hs => ?_⟩
  rw [(submission_enqueue henqueue).2 k] at hs
  rw [hsequence]
  split at hs
  · cases hs
    rw [hid]
    exact P.inserted c d.sequence hpos
  · exact P.later _ _ (h.rows k s hs)

theorem enqueueSubmission (h : d.Rows P) (c : EnqueueCall) :
    (enqueueSubmission c (.idle d)).1.committed.Rows P := by
  by_cases hstores : c.stores (.idle d) = true
  · obtain ⟨d', id, henqueue, heq⟩ := enqueueSubmission_of_stores hstores
    rw [heq]
    exact h.enqueue henqueue
  · rw [enqueueSubmission_of_not_stores hstores]
    exact h

theorem claimSubmission (h : d.Rows P) (c : ClaimCall) : (claimSubmission c (.idle d)).1.committed.Rows P := by
  obtain ⟨row, code, d', -, hclaim, heq⟩ | ⟨hcommitted, -⟩ := claimSubmission_cases c d
  · have hd' : d' = ((d.afterExpiry c).claimJob (columnInt row.submissionId) c.token c.claimNow).1 := by
      rw [hclaim]
    rw [heq, Session.idle_committed, hd']
    refine h.of_eq ?_ fun k => ?_
    · unfold Db.afterExpiry
      split <;> rfl
    · unfold Db.afterExpiry
      split <;> rfl
  · rw [hcommitted]
    exact h

theorem completeSubmission (h : d.Rows P) (c : CompleteCall) :
    (completeSubmission c (.idle d)).1.committed.Rows P := by
  obtain ⟨-, -, heq⟩ | ⟨-, hcommitted, -⟩ := completeSubmission_cases c d
  · rw [heq]
    have hfinished : (d.finishJob c.id c.token).1.Rows P := h.of_eq rfl fun _ => rfl
    exact hfinished.updateSubmissions fun s hs => P.reported _ s c.report hs
  · rw [hcommitted]
    exact h

theorem step {s : System} (h : s.db.Rows P) (a : Action) : (s.step a).db.Rows P := by
  cases a with
  | enqueue c => exact h.enqueueSubmission c
  | claim c => exact h.claimSubmission c
  | complete c => exact h.completeSubmission c
  | requeueJob web id ok =>
      simp only [System.step, requeueFirst_idle]
      cases ok with
      | false => exact h
      | true => exact h.of_eq rfl fun _ => rfl
  | requeueClear web ok =>
      simp only [System.step, requeueSecond_idle]
      cases s.pending web with
      | none => exact h
      | some id =>
          cases ok with
          | false => exact h
          | true => exact h.updateSubmissions fun s hs => P.cleared _ s hs

end Db.Rows

theorem rows_after (P : RowProperty) (as : List Action) : (after as).db.Rows P :=
  run_keeps (P := fun s : System => s.db.Rows P) .empty (fun _ a h => Db.Rows.step h a) as

/-! ## Numbers -/

/-- The numbers of the rows are positive, and none is above the last one used. -/
def Db.Numbered (d : Db) : Prop := ∀ s ∈ d.submissions.rows, 0 < s.submissionId ∧ s.submissionId ≤ d.sequence

def numberedRows : RowProperty where
  holds n s := 0 < s.submissionId ∧ s.submissionId ≤ n
  inserted c n hn := ⟨Int.lt_add_one_of_le hn, le_refl (n + 1)⟩
  later n s h := ⟨h.1, by omega⟩
  reported _ _ _ h := h
  cleared _ _ h := h

theorem numbered_after (as : List Action) : (after as).db.Numbered := fun s hs =>
  (rows_after numberedRows as).rows s.submissionId s (Table.mem_rows_iff.mp hs)

/-! ## Verdicts -/

def verdictWords : List Text :=
  ["accepted", "compilation_error", "wrong_answer", "time_limit", "memory_limit", "runtime_error",
    "internal_error"].map String.toList

theorem parseVerdict_mem (result : Text) : (parseVerdict result).1 ∈ verdictWords := by
  have hwords : ∀ w ∈ ["accepted", "compilation_error", "wrong_answer", "time_limit", "memory_limit",
      "runtime_error", "internal_error"], w.toList ∈ verdictWords := fun w hw => List.mem_map_of_mem hw
  simp only [List.forall_mem_cons] at hwords
  obtain ⟨haccepted, hcompilation, hwrong, htime, hmemory, hruntime, hinternal, -⟩ := hwords
  unfold parseVerdict
  split
  · exact haccepted
  split
  · exact hcompilation
  split
  · exact hwrong
  split
  · exact htime
  split
  · exact hmemory
  split
  · exact hruntime
  · exact hinternal

/-- No row has the old column `result`, and its verdict is one of those the grader's message stands for. -/
def verdictRows : RowProperty where
  holds _ s := s.result = none ∧ ∀ w, s.verdict = some w → w ∈ verdictWords
  inserted _ _ _ := ⟨rfl, nofun⟩
  later _ _ h := h
  reported _ _ r h := ⟨h.1, fun _ hw => Option.some.inj hw ▸ parseVerdict_mem r.result⟩
  cleared _ _ h := ⟨h.1, nofun⟩

/-! ## What an insert leaves -/

/-- The tables have grown by rows with new numbers. -/
structure Db.Extends (d d' : Db) : Prop where
  sequence : d.sequence ≤ d'.sequence
  jobs : ∀ k ≤ d.sequence, d'.job k = d.job k
  rows : ∀ k ≤ d.sequence + 1, d'.submissions.rows.filter (fun s => s.submissionId < k) =
    d.submissions.rows.filter (fun s => s.submissionId < k)

namespace Db.Extends

variable {d d' d'' : Db}

theorem refl (d : Db) : d.Extends d := ⟨le_refl _, fun _ _ => rfl, fun _ _ => rfl⟩

theorem trans (h : d.Extends d') (h' : d'.Extends d'') : d.Extends d'' where
  sequence := le_trans h.sequence h'.sequence
  jobs k hk := (h'.jobs k (le_trans hk h.sequence)).trans (h.jobs k hk)
  rows k hk := (h'.rows k (le_trans hk (add_le_add_left h.sequence 1))).trans (h.rows k hk)

theorem insertSubmission_rows {userId taskPk code isPublic} {id : Int}
    (h : d.insertSubmission userId taskPk code isPublic = some (d', id)) :
    ∃ row, row.submissionId = d.sequence + 1 ∧
      d'.submissions.rows = Table.insertRow Submission.submissionId row d.submissions.rows := by
  simp only [insertSubmission] at h
  split at h
  · cases h
  · rename_i hins
    cases h
    exact ⟨_, rfl, Table.rows_insert? hins⟩

theorem insertJob_submissions {id : Int} {u : Unit} (h : d.insertJob id = some (d', u)) :
    d'.submissions = d.submissions := by
  unfold insertJob at h
  split at h
  · cases h
  · split at h
    · cases h
    · cases h
      rfl

theorem enqueue {c : EnqueueCall} {id : Int} (h : d.enqueue c = some (d', id)) : d.Extends d' := by
  obtain ⟨_, _, d₁, _, h₁, h₂⟩ := enqueue_eq_some h
  obtain ⟨hid, hsequence₁⟩ := insertSubmission_sequence h₁
  have hsequence : d'.sequence = d.sequence + 1 := (insertJob_sequence h₂).trans hsequence₁
  obtain ⟨row, hrow, hrows⟩ := insertSubmission_rows h₁
  refine ⟨by omega, fun k hk => ?_, fun k hk => ?_⟩
  · have hne : id ≠ k := by omega
    rw [(insertJob_spec h₂).2.2 k, if_neg hne]
    exact (insertSubmission_spec h₁).1 k
  · rw [insertJob_submissions h₂, hrows]
    exact Table.filter_insertRow_neg _ (by simp [hrow, hk])

theorem enqueueSubmission (d : Db) (c : EnqueueCall) : d.Extends (enqueueSubmission c (.idle d)).1.committed := by
  by_cases hstores : c.stores (.idle d) = true
  · obtain ⟨d', id, henqueue, heq⟩ := enqueueSubmission_of_stores hstores
    rw [heq]
    exact enqueue henqueue
  · rw [enqueueSubmission_of_not_stores hstores]
    exact refl d

end Db.Extends

end Tle.Queue
