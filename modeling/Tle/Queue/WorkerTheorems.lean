import Tle.Queue.ClaimTheorems
import Tle.Queue.Lemmas.Workers

/-!
# What the graders store
-/

namespace Tle.Queue
open Tle.Lib

/-! ## The job a grader works on -/

/-- `job` is what a grader has read of `row`. -/
def SubmissionJob.Describes (job : SubmissionJob) (row : Submission) : Prop :=
  ∃ code, row.code = some code ∧ job = .read job.claimToken row code

theorem SubmissionJob.Describes.congr {job : SubmissionJob} {row row' : Submission} (h : job.Describes row)
    (hsource : row'.source = row.source) : job.Describes row' := by
  obtain ⟨code, hcode, hjob⟩ := h
  simp only [Submission.source, Prod.mk.injEq] at hsource
  obtain ⟨hid, huser, htask, hcode', hpublic⟩ := hsource
  refine ⟨code, hcode'.trans hcode, hjob.trans ?_⟩
  simp only [SubmissionJob.read, hid, huser, htask, hpublic]

/-- The row that a claim hands out stands under its own number. -/
theorem nextQueued_spec {d : Db} {row : Submission} {code : Text} (h : d.nextQueued = some (row, code)) :
    ∃ j ∈ d.gradingJobs.rows, j.status = .queued ∧ d.submission j.submissionId = some row ∧
      row.code = some code := by
  rw [nextQueued_eq] at h
  obtain ⟨j, hj, hwith⟩ := Option.bind_eq_some_iff.mp h
  have hfound := List.find?_some hj
  simp only [Bool.and_eq_true, decide_eq_true_eq] at hfound
  obtain ⟨s, hs, hcode⟩ := Option.bind_eq_some_iff.mp hwith
  obtain ⟨code', hcode', heq⟩ := Option.map_eq_some_iff.mp hcode
  cases heq
  exact ⟨j, List.mem_of_find?_eq_some hj, hfound.1, hs, hcode'⟩

theorem claimed_describes {c : ClaimCall} {s : Session} {job : SubmissionJob}
    (h : (claimSubmission c s).2 = .claimed job) (hnumbers : s.committed.Numbered)
    (hids : s.committed.sequence < 2 ^ 31) :
    ∃ row, s.committed.submission (rowKey job.submissionId) = some row ∧ job.Describes row := by
  obtain ⟨d, txn⟩ := s
  cases txn with
  | some d' => rw [Connections.claimSubmission_open] at h; cases h
  | none =>
      obtain ⟨row, code, d', hnext, -, heq⟩ | ⟨-, hreply⟩ := claimSubmission_cases c d
      · have hjob : .read c.token row code = job := ClaimReply.claimed.inj ((congrArg Prod.snd heq).symm.trans h)
        obtain ⟨j, -, -, hrow, hcode⟩ := nextQueued_spec hnext
        rw [Db.submission_afterExpiry] at hrow
        have hkey : row.submissionId = j.submissionId := Db.submission_key hrow
        obtain ⟨hpos, hle⟩ := hnumbers row (Table.find_mem hrow)
        have hbound : d.sequence < 2 ^ 31 := hids
        have hfits : rowKey (columnInt row.submissionId) = row.submissionId :=
          rowKey_columnInt ⟨by omega, by exact lt_of_le_of_lt hle hbound⟩
        subst hjob
        refine ⟨row, ?_, code, hcode, rfl⟩
        change d.submission (rowKey (columnInt row.submissionId)) = some row
        rw [hfits, hkey]
        exact hrow
      · exact absurd h (hreply job)

/-! ## Where the stored results come from -/

/-- What the columns of `row` hold is what a grading of that very submission has left. -/
def Graded (gs : List (SubmissionJob × GradeOutcome)) (row : Submission) : Prop :=
  ∃ job outcome, (job, outcome) ∈ gs ∧ job.Describes row ∧ row.withReport outcome.reported = row

/-- A worker's job is a row of the table, and what it reports is the outcome of its grading. -/
structure Provenance (gs : List (SubmissionJob × GradeOutcome)) (w : Workers) : Prop where
  grading : ∀ p job, w.phase p = .grading job →
    ∃ row, w.conns.db.submission (rowKey job.submissionId) = some row ∧ job.Describes row
  reporting : ∀ p job report, w.phase p = .reporting job report →
    (∃ outcome, (job, outcome) ∈ gs ∧ report = outcome.reported) ∧
      ∃ row, w.conns.db.submission (rowKey job.submissionId) = some row ∧ job.Describes row
  stored : ∀ k row, w.conns.db.submission k = some row → row.verdictMessage ≠ none → Graded gs row

namespace Provenance

variable {gs gs' : List (SubmissionJob × GradeOutcome)} {w : Workers} {p : Nat}

theorem init : Provenance [] Workers.init where
  grading _ _ h := by cases h
  reporting _ _ _ h := by cases h
  stored _ _ h := by cases h

theorem mono (h : Provenance gs w) (hsub : gs ⊆ gs') : Provenance gs' w where
  grading := h.grading
  reporting p job report hp := by
    obtain ⟨⟨outcome, hmem, hreport⟩, hrow⟩ := h.reporting p job report hp
    exact ⟨⟨outcome, hsub hmem, hreport⟩, hrow⟩
  stored k row hrow hresult := by
    obtain ⟨job, outcome, hmem, hgraded⟩ := h.stored k row hrow hresult
    exact ⟨job, outcome, hsub hmem, hgraded⟩

/-- A job that describes a row still does after a call. -/
theorem describes_call (w : Workers) (p : Nat) (a : Call) {job : SubmissionJob}
    (h : ∃ row, w.conns.db.submission (rowKey job.submissionId) = some row ∧ job.Describes row) :
    ∃ row, (w.call p a).conns.db.submission (rowKey job.submissionId) = some row ∧ job.Describes row := by
  obtain ⟨row, hrow, hdescribes⟩ := h
  obtain ⟨row', hrow', hsource⟩ := (w.conns.rowStep p a (rowKey job.submissionId)).source hrow
  exact ⟨row', hrow', hdescribes.congr hsource⟩

/-- A call keeps the provenance if a completion reports a grading of its submission. -/
theorem call (h : Provenance gs w) (a : Call)
    (hcomplete : ∀ c, a = .complete c → ∃ job outcome, (job, outcome) ∈ gs ∧ c.id = job.submissionId ∧
      c.report = outcome.reported ∧
      ∃ row, w.conns.db.submission (rowKey job.submissionId) = some row ∧ job.Describes row) :
    Provenance gs (w.call p a) where
  grading q job hq := describes_call w p a (h.grading q job hq)
  reporting q job report hq := by
    obtain ⟨houtcome, hrow⟩ := h.reporting q job report hq
    exact ⟨houtcome, describes_call w p a hrow⟩
  stored k row' hrow' hresult := by
    have hstep : RowStep a k (w.conns.db.submission k) (some row') := hrow' ▸ w.conns.rowStep p a k
    cases hrow : w.conns.db.submission k with
    | none =>
        rw [hrow] at hstep
        cases hstep with
        | inserted c => exact absurd rfl hresult
    | some old =>
        rw [hrow] at hstep
        cases hstep with
        | same => exact h.stored k _ hrow hresult
        | cleared => exact absurd rfl hresult
        | reported c _ ha hk =>
            obtain ⟨job, outcome, hmem, hid, hreport, row₀, hrow₀, hdescribes⟩ := hcomplete c ha
            have hsame : row₀ = old := by
              rw [← hid, hk, hrow] at hrow₀
              exact (Option.some.inj hrow₀).symm
            subst hsame
            refine ⟨job, outcome, hmem, hdescribes.congr rfl, ?_⟩
            rw [hreport]
            rfl

theorem enter (h : Provenance gs w) (phase : Phase)
    (hgrading : ∀ job, phase = .grading job →
      ∃ row, w.conns.db.submission (rowKey job.submissionId) = some row ∧ job.Describes row)
    (hreporting : ∀ job report, phase = .reporting job report →
      (∃ outcome, (job, outcome) ∈ gs ∧ report = outcome.reported) ∧
        ∃ row, w.conns.db.submission (rowKey job.submissionId) = some row ∧ job.Describes row) :
    Provenance gs (w.enter p phase) where
  grading q job hq := by
    by_cases hqp : q = p
    · subst hqp
      exact hgrading job (by simpa [Workers.enter] using hq)
    · exact h.grading q job (by simpa [Workers.enter, hqp] using hq)
  reporting q job report hq := by
    by_cases hqp : q = p
    · subst hqp
      exact hreporting job report (by simpa [Workers.enter] using hq)
    · exact h.reporting q job report (by simpa [Workers.enter, hqp] using hq)
  stored := h.stored

theorem poll_again (h : Provenance gs w) : Provenance gs (w.enter p .polling) :=
  h.enter .polling (fun _ h => by cases h) fun _ _ h => by cases h

theorem poll (h : Provenance gs w) (hnumbers : w.conns.db.Numbered) (hids : w.conns.db.sequence < 2 ^ 31)
    (c : ClaimCall) : Provenance gs (w.step (p, .poll c)) := by
  have hcall : Provenance gs (w.call p (.claim c)) := h.call _ fun _ h => by cases h
  cases hphase : w.phase p with
  | grading job => simpa only [Workers.step, hphase] using h
  | reporting job report => simpa only [Workers.step, hphase] using h
  | polling =>
      cases hreply : (claimSubmission c (w.conns.session p)).2 with
      | failed => simpa only [Workers.step, hphase, hreply] using hcall
      | nothing => simpa only [Workers.step, hphase, hreply] using hcall
      | claimed job =>
          have hrow := claimed_describes hreply hnumbers hids
          simp only [Workers.step, hphase, hreply]
          refine hcall.enter _ (fun job' h => ?_) fun _ _ h => by cases h
          cases h
          exact describes_call w p _ hrow

theorem step (h : Provenance gs w) (hnumbers : w.conns.db.Numbered) (hids : w.conns.db.sequence < 2 ^ 31)
    (a : Nat × Turn) : Provenance (gs ++ w.emit a) (w.step a) := by
  obtain ⟨p, a⟩ := a
  cases a with
  | web a =>
      simp only [Workers.emit, List.append_nil]
      refine h.call _ fun c hc => ?_
      cases a <;> cases hc
  | poll c =>
      simp only [Workers.emit, List.append_nil]
      exact h.poll hnumbers hids c
  | grade outcome =>
      cases hphase : w.phase p with
      | polling => simpa only [Workers.step, Workers.emit, hphase, List.append_nil] using h
      | reporting job report => simpa only [Workers.step, Workers.emit, hphase, List.append_nil] using h
      | grading job =>
          simp only [Workers.step, Workers.emit, hphase]
          refine (h.mono (List.subset_append_left _ _)).enter _ (fun _ h => by cases h) fun job' report h' => ?_
          cases h'
          exact ⟨⟨outcome, by simp, rfl⟩, h.grading p job hphase⟩
  | report c =>
      simp only [Workers.emit, List.append_nil]
      cases hphase : w.phase p with
      | polling => simpa only [Workers.step, hphase] using h
      | grading job => simpa only [Workers.step, hphase] using h
      | reporting job report =>
          simp only [Workers.step, hphase]
          obtain ⟨⟨outcome, hmem, hreport⟩, hrow⟩ := h.reporting p job report hphase
          refine (h.call _ fun c' hc' => ?_).poll_again
          cases hc'
          exact ⟨job, outcome, hmem, rfl, hreport, hrow⟩
  | restart =>
      simp only [Workers.emit, List.append_nil]
      exact (h.call .restart fun _ h => by cases h).poll_again

end Provenance

theorem provenance (as : List (Nat × Turn)) (hids : (workersAfter as).conns.db.sequence < 2 ^ 31) :
    Provenance (gradings as) (workersAfter as) := by
  induction as using List.reverseRecOn with
  | nil => exact Provenance.init
  | append_singleton as a ih =>
      have hafter : workersAfter (as ++ [a]) = (workersAfter as).step a := run_snoc as a
      have hgradings : gradings (as ++ [a]) = gradings as ++ (workersAfter as).emit a := history_snoc as a
      rw [hafter] at hids ⊢
      rw [hgradings]
      have hbefore : (workersAfter as).conns.db.sequence < 2 ^ 31 :=
        lt_of_le_of_lt ((workersAfter as).sequence_step a) hids
      exact (ih hbefore).step (numbered_workers as) hbefore a

/-- Whatever the graders and the web processes do, a result that stands in the table is what `grade` has
left for the code and the task of that very submission. -/
theorem results_graded (as : List (Nat × Turn)) (hids : (workersAfter as).conns.db.sequence < 2 ^ 31) :
    ∀ k row, (workersAfter as).conns.db.submission k = some row → row.verdictMessage ≠ none →
      Graded (gradings as) row :=
  (provenance as hids).stored

/-- One submission, and a grader whose `grade` fails. -/
def failedGrading : List (Nat × Turn) :=
  [(0, .web (.enqueue { userId := 1, taskPk := 1, code := some "x".toList, isPublic := true })),
    (1, .poll { token := "a".toList, expiryNow := 0, claimNow := 0 }),
    (1, .grade { rc := -1, report := aReport "grading" }),
    (1, .report { id := 0, report := aReport "", token := [] })]

theorem results_graded_failure : ∃ row, (workersAfter failedGrading).conns.db.submission 1 = some row ∧
    row.verdict = some "internal_error".toList ∧ Graded (gradings failedGrading) row := by
  have hfound : ((workersAfter failedGrading).conns.db.submission 1).map
      (fun row => (row.verdict, row.verdictMessage.isSome)) = some (some "internal_error".toList, true) := by
    decide
  obtain ⟨row, hrow, hcolumns⟩ := Option.map_eq_some_iff.mp hfound
  simp only [Prod.mk.injEq] at hcolumns
  obtain ⟨hverdict, hmessage⟩ := hcolumns
  refine ⟨row, hrow, hverdict, results_graded failedGrading (by decide) 1 row hrow ?_⟩
  intro hnone
  rw [hnone] at hmessage
  cases hmessage

/-! ## The table as a log -/

/-- The enqueue of a step, if it has returned a number. -/
def Workers.accepted (w : Workers) : Nat × Turn → List EnqueueCall
  | (p, .web (.enqueue c)) => if (enqueueSubmission c (w.conns.session p)).2 = -1 then [] else [c]
  | _ => []

/-- The enqueues that have returned a number, in their order. -/
def acceptedEnqueues (as : List (Nat × Turn)) : List EnqueueCall :=
  history Workers.step Workers.accepted Workers.init as

/-- What the table is to hold of the submissions: their columns, under the numbers from 1 on. -/
def enqueueLog (cs : List EnqueueCall) : List (Int × Option Int × Int × Option Text × Int) :=
  cs.mapIdx fun i c => (c.row (i + 1)).source

/-- The table is the log of the committed enqueues. -/
structure Logged (cs : List EnqueueCall) (d : Db) : Prop where
  sequence : d.sequence = cs.length
  rows : d.submissions.rows.map Submission.source = enqueueLog cs

theorem enqueueLog_snoc (cs : List EnqueueCall) (c : EnqueueCall) :
    enqueueLog (cs ++ [c]) = enqueueLog cs ++ [(c.row (cs.length + 1)).source] := by
  simp [enqueueLog, List.mapIdx_append]

theorem enqueueLog_number {cs : List EnqueueCall} {e : Int × Option Int × Int × Option Text × Int}
    (h : e ∈ enqueueLog cs) : 0 < e.1 ∧ e.1 ≤ cs.length := by
  obtain ⟨i, hi, rfl⟩ := List.mem_mapIdx.mp h
  simp only [Submission.source, EnqueueCall.row]
  omega

theorem enqueueLog_sorted (cs : List EnqueueCall) : (enqueueLog cs).Pairwise fun e e' => e.1 < e'.1 := by
  induction cs using List.reverseRecOn with
  | nil => exact List.Pairwise.nil
  | append_singleton cs c ih =>
      rw [enqueueLog_snoc, List.pairwise_append]
      refine ⟨ih, List.pairwise_singleton _ _, fun e he e' he' => ?_⟩
      rw [List.mem_singleton.mp he']
      have hle := (enqueueLog_number he).2
      simp only [Submission.source, EnqueueCall.row]
      omega

namespace Logged

variable {cs : List EnqueueCall} {d d' : Db}

theorem empty : Logged [] Db.empty := ⟨rfl, rfl⟩

theorem find (h : Logged cs d) (e : Int × Option Int × Int × Option Text × Int) :
    e ∈ enqueueLog cs ↔ (d.submission e.1).map Submission.source = some e := by
  rw [← h.rows, List.mem_map, Option.map_eq_some_iff]
  constructor
  · rintro ⟨row, hrow, rfl⟩
    exact ⟨row, Table.mem_rows_iff.mp hrow, rfl⟩
  · rintro ⟨row, hrow, rfl⟩
    exact ⟨row, Table.find_mem hrow, rfl⟩

/-- A step that keeps the columns of every row keeps the log. -/
theorem of_source (h : Logged cs d) (hsequence : d'.sequence = d.sequence)
    (hsource : ∀ k, (d'.submission k).map Submission.source = (d.submission k).map Submission.source) :
    Logged cs d' where
  sequence := hsequence.trans h.sequence
  rows := by
    refine Table.map_rows_eq (t := d'.submissions) (g := Prod.fst) (fun _ => rfl) (enqueueLog_sorted cs) fun e => ?_
    rw [h.find e, ← hsource]
    rfl

theorem enqueue (h : Logged cs d) {c : EnqueueCall} {id : Int} (henqueue : d.enqueue c = some (d', id)) :
    Logged (cs ++ [c]) d' := by
  obtain ⟨hid, -⟩ := enqueue_sequence henqueue
  obtain ⟨-, hrows⟩ := submission_enqueue henqueue
  obtain ⟨_, _, d₁, _, h₁, h₂⟩ := enqueue_eq_some henqueue
  have hsequence : d'.sequence = d.sequence + 1 :=
    (Db.insertJob_sequence h₂).trans (Db.insertSubmission_sequence h₁).2
  have hlength := h.sequence
  refine ⟨by simp [hsequence, hlength], ?_⟩
  refine Table.map_rows_eq (t := d'.submissions) (g := Prod.fst) (fun _ => rfl) (enqueueLog_sorted _) fun e => ?_
  have hfind : d'.submissions.find e.1 = if id = e.1 then some (c.row id) else d.submission e.1 := hrows e.1
  rw [enqueueLog_snoc, List.mem_append, List.mem_singleton, hfind, h.find e]
  have hnumber : id = (cs.length : Int) + 1 := by omega
  rw [hnumber]
  split
  · rename_i he
    have hnone : d.submission e.1 = none := by
      cases hold : d.submission e.1 with
      | none => rfl
      | some row =>
          have hmem : row.source ∈ enqueueLog cs := by
            rw [← h.rows]
            exact List.mem_map_of_mem (Table.find_mem hold)
          have hle := (enqueueLog_number hmem).2
          have hkey : row.submissionId = e.1 := Db.submission_key hold
          simp only [Submission.source] at hle
          omega
    simp [hnone, eq_comm]
  · rename_i he
    refine ⟨fun hmem => hmem.resolve_right fun heq => he ?_, Or.inl⟩
    rw [heq]
    rfl

end Logged

/-- A step that commits no enqueue keeps the columns of every row. -/
theorem Connections.source_of_not_stores (s : Connections) (p : Nat) (a : Call)
    (h : ∀ c, a = .enqueue c → ¬c.stores (s.session p) = true) :
    (s.step (p, a)).db.sequence = s.db.sequence ∧ ∀ k, ((s.step (p, a)).db.submission k).map Submission.source =
      (s.db.submission k).map Submission.source := by
  by_cases henqueue : ∃ c, a = .enqueue c
  · obtain ⟨c, rfl⟩ := henqueue
    have hcommitted : (s.step (p, .enqueue c)).db = s.db := enqueueSubmission_of_not_stores (h c rfl)
    rw [hcommitted]
    exact ⟨rfl, fun _ => rfl⟩
  · refine ⟨?_, fun k => ?_⟩
    · cases htxn : s.txn p with
      | some d' => rw [step_db_of_open htxn]
      | none =>
          have hsession := session_of_idle htxn
          cases a with
          | enqueue c => exact absurd ⟨c, rfl⟩ henqueue
          | claim c =>
              simp only [step, hsession, use]
              exact (submission_claimSubmission (k := 0) c).2
          | complete c =>
              simp only [step, hsession, use]
              exact sequence_completeSubmission c
          | requeueJob id ok =>
              simp only [step, hsession, use, hold, requeueFirst_idle]
              cases ok <;> rfl
          | requeueClear ok =>
              simp only [step, hsession]
              split
              · rfl
              · simp only [use, hold, requeueSecond_idle]
                cases ok <;> rfl
          | restart => rfl
    · have hstep := s.rowStep p a k
      cases hold : s.db.submission k with
      | none =>
          rw [hold] at hstep
          generalize (s.step (p, a)).db.submission k = row at hstep ⊢
          cases hstep with
          | same => rfl
          | inserted c ha => exact absurd ⟨c, ha⟩ henqueue
      | some row =>
          obtain ⟨row', hrow', hsource⟩ := hstep.source hold
          rw [hrow', Option.map_some, Option.map_some, hsource]

/-- An enqueue returns a number exactly when it has committed its row. -/
theorem enqueueSubmission_reply {c : EnqueueCall} {s : Session} (hpos : 0 ≤ s.committed.sequence)
    (hids : (enqueueSubmission c s).1.committed.sequence < 2 ^ 31) :
    (enqueueSubmission c s).2 = -1 ↔ ¬c.stores s = true := by
  constructor
  · intro hreply hstores
    obtain ⟨d', id, henqueue, heq⟩ := enqueueSubmission_of_stores hstores
    obtain ⟨d, txn⟩ := s
    simp only [EnqueueCall.stores, Bool.and_eq_true, Option.isNone_iff_eq_none] at hstores
    obtain ⟨⟨⟨hbegin, rfl⟩, -⟩, hcommit⟩ := hstores
    have hends := enqueueSubmission_ends (d := d) hbegin
    simp only [henqueue, Option.map_some, Session.Ends, hcommit, ↓reduceIte] at hends
    obtain ⟨_, _, d₁, _, h₁, h₂⟩ := enqueue_eq_some henqueue
    have hid : id = d.sequence + 1 := (enqueue_sequence henqueue).1
    have hsequence : d'.sequence = d.sequence + 1 :=
      (Db.insertJob_sequence h₂).trans (Db.insertSubmission_sequence h₁).2
    rw [heq, Session.idle_committed, hsequence] at hids
    have hpos' : 0 ≤ d.sequence := hpos
    have hnumber : toInt32 id = id := rowKey_columnInt ⟨by omega, by omega⟩
    have hminus : (enqueueSubmission c ⟨d, none⟩).2 = toInt32 id := congrArg Prod.snd hends
    rw [hminus, hnumber] at hreply
    omega
  · intro hnot
    obtain ⟨d, _ | d'⟩ := s
    · cases hbegin : c.begin_ok with
      | false => exact congrArg Prod.snd (enqueueSubmission_not_begun (d := d) hbegin)
      | true =>
          obtain ⟨hcommit, d', id, hbody, -⟩ | ⟨-, -, hreply⟩ := (enqueueSubmission_ends (d := d) hbegin).cases
          · obtain ⟨p, hp, -⟩ := Option.map_eq_some_iff.mp hbody
            exact absurd (by simp [EnqueueCall.stores, hbegin, hcommit, hp]) hnot
          · exact hreply.elim id id
    · exact congrArg Prod.snd (Connections.enqueueSubmission_open c)

theorem Logged.step {cs : List EnqueueCall} {w : Workers} (h : Logged cs w.conns.db) (a : Nat × Turn)
    (hids : (w.step a).conns.db.sequence < 2 ^ 31) :
    Logged (cs ++ w.accepted a) (w.step a).conns.db := by
  have hpos : 0 ≤ w.conns.db.sequence := by
    rw [h.sequence]
    exact Int.natCast_nonneg _
  by_cases hweb : ∃ p c, a = (p, .web (.enqueue c)) ∧ c.stores (w.conns.session p) = true
  · obtain ⟨p, c, rfl, hstores⟩ := hweb
    have hreply := mt (enqueueSubmission_reply (c := c) (s := w.conns.session p) hpos hids).mp (not_not.mpr hstores)
    obtain ⟨d', id, henqueue, heq⟩ := enqueueSubmission_of_stores hstores
    have hdb : (w.step (p, .web (.enqueue c))).conns.db = d' := congrArg Session.committed heq
    rw [hdb, Workers.accepted, if_neg hreply]
    exact h.enqueue henqueue
  · have hnone : w.accepted a = [] := by
      unfold Workers.accepted
      split
      · rename_i p c
        exact if_pos ((enqueueSubmission_reply (c := c) (s := w.conns.session p) hpos hids).mpr
          fun hstores => hweb ⟨p, c, rfl, hstores⟩)
      · rfl
    rw [hnone, List.append_nil]
    obtain hsame | ⟨c, hc, henqueue⟩ := w.conns_step a
    · rw [hsame]
      exact h
    · obtain ⟨hsequence, hsource⟩ := w.conns.source_of_not_stores a.1 c fun e he hstores =>
        hweb ⟨a.1, e, Prod.ext rfl (henqueue e he), hstores⟩
      rw [hc]
      exact h.of_source hsequence hsource

theorem logged (as : List (Nat × Turn)) (hids : (workersAfter as).conns.db.sequence < 2 ^ 31) :
    Logged (acceptedEnqueues as) (workersAfter as).conns.db := by
  induction as using List.reverseRecOn with
  | nil => exact Logged.empty
  | append_singleton as a ih =>
      have hafter : workersAfter (as ++ [a]) = (workersAfter as).step a := run_snoc as a
      have haccepted : acceptedEnqueues (as ++ [a]) = acceptedEnqueues as ++ (workersAfter as).accepted a :=
        history_snoc as a
      rw [hafter] at hids ⊢
      rw [haccepted]
      exact (ih (lt_of_le_of_lt ((workersAfter as).sequence_step a) hids)).step a hids

/-- In every run the submissions are the enqueues that have returned a number, in their order and numbered
from 1, and no later call changes whose they are, which task they are for or their code. -/
theorem submissions_logged (as : List (Nat × Turn)) (hids : (workersAfter as).conns.db.sequence < 2 ^ 31) :
    (workersAfter as).conns.db.submissions.rows.map Submission.source = enqueueLog (acceptedEnqueues as) :=
  (logged as hids).rows

def anEnqueueBy (user : Int) (commit_ok : Bool) : EnqueueCall :=
  { userId := user, taskPk := 7, code := some "x".toList, isPublic := true, commit_ok }

/-- The second of three enqueues fails to commit, and its connection stays in its transaction. -/
theorem submissions_logged_retry :
    (workersAfter [(0, .web (.enqueue (anEnqueueBy 4 true))), (1, .web (.enqueue (anEnqueueBy 5 false))),
      (2, .web (.enqueue (anEnqueueBy (-1) true)))]).conns.db.submissions.rows.map Submission.source =
      [(1, some 4, 7, some "x".toList, 1), (2, none, 7, some "x".toList, 1)] :=
  (submissions_logged [(0, .web (.enqueue (anEnqueueBy 4 true))), (1, .web (.enqueue (anEnqueueBy 5 false))),
    (2, .web (.enqueue (anEnqueueBy (-1) true)))] (by decide)).trans rfl

end Tle.Queue
