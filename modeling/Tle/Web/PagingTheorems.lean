import Tle.Queue.Theorems
import Tle.Web.Get
import Tle.Web.Paging

/-!
# What a reader of the list gets to see
-/

namespace Tle.Web
open Tle.Lib Tle.Html Tle.Queue

namespace Site

/-- The rows that pass the filter, as they are shown, the newest first. -/
def listing (d : Site) (f : Filter) : List SubmissionRow := (d.matching f).map d.submissionRow

def reading (d : Site) (f : Filter) (calls : List PageCall) : Paging := run (Paging.step f) { site := d } calls

/-- A reader with any limits sees each row of the list once, in order, whatever comes in between. -/
theorem reading_complete (d : Site) (f : Filter) (calls : List PageCall) (hnumbered : d.queue.Numbered)
    (hrange : ∀ s ∈ d.submissions, s.submissionId < 2 ^ 31) (hlimits : ∀ c ∈ calls, 1 ≤ c.limit) :
    (d.listing f).Pairwise (fun a b => b.submissionId < a.submissionId) ∧
      (d.reading f calls).shown <+: d.listing f ∧
      ((d.reading f calls).ended = true → (d.reading f calls).shown = d.listing f) ∧
      ((d.listing f).length < calls.length → (d.reading f calls).ended = true) := by
  have hinRange : Paging.InRange d f := by
    intro s hs
    have hmem := (mem_matching.mp hs).1
    have hpos := (hnumbered s hmem).1
    have hlt := hrange s hmem
    exact ⟨by omega, by omega⟩
  obtain ⟨w, h⟩ := Paging.run_follows hinRange hnumbered calls hlimits
  obtain ⟨hfront, hall, hends⟩ := h.going.complete
  refine ⟨?_, ?_, fun hended => ?_, fun hlen => ?_⟩
  · rw [listing, List.pairwise_map]
    refine (matching_descending d f).imp_of_mem fun {a b} ha hb hlt => ?_
    have hida := Paging.columnUnsigned_eq (k := a.submissionId) (by have := hinRange a ha; omega)
    have hidb := Paging.columnUnsigned_eq (k := b.submissionId) (by have := hinRange b hb; omega)
    have hcast : ((d.submissionRow b).submissionId : Int) < ((d.submissionRow a).submissionId : Int) := by
      rw [submissionRow, submissionRow, hida, hidb]
      exact hlt
    exact Int.ofNat_lt.mp hcast
  · rw [reading, h.shown]
    exact hfront.map d.submissionRow
  · rw [reading, h.shown, hall (h.ended.symm.trans hended), listing]
  · rw [listing, List.length_map] at hlen
    exact h.ended.trans (hends hlen)

/-- Two submissions, and a third one while the list is read. -/
theorem reading_two : ({ queue := (after [anEnqueue, anEnqueue]).db } : Site).listing {} =
    (({ queue := (after [anEnqueue, anEnqueue]).db } : Site).reading {}
      [⟨1, [{ userId := -1, taskPk := 1, code := none, isPublic := false }]⟩, ⟨5, []⟩, ⟨5, []⟩]).shown := by
  have hcomplete := reading_complete { queue := (after [anEnqueue, anEnqueue]).db } {}
    [⟨1, [{ userId := -1, taskPk := 1, code := none, isPublic := false }]⟩, ⟨5, []⟩, ⟨5, []⟩]
    (numbered_after _) (by decide) (by decide)
  exact (hcomplete.2.2.1 (hcomplete.2.2.2 (by decide))).symm

/-! ## The filter of the verdict -/

/-- The rows of user and task that are shown with the verdict `v`, the newest first. -/
def displaying (d : Site) (user : Option Text) (task : Nat) (v : Text) : List Submission :=
  (d.submissions.filter fun s => d.passes { user, task } s && (d.submissionRow s).verdict = v).reverse

/-- The filter selects by what is shown. -/
def SelectsDisplayed (d : Site) (from_ limit : Nat) (user : Option Text) (task : Nat) (v : Text) : Prop :=
  (d.fetchSubmissions true from_ limit user task (some v)).map (·.1) =
    some ((page Submission.submissionId limit (from_ : Int) (d.displaying user task v)).map d.submissionRow)

/-- The submission has no verdict, and its job is in the state `v`. -/
def Unjudged (d : Site) (v : Text) (s : Submission) : Prop := s.verdict = none ∧ d.jobStatus s = some v

section Verdicts

variable {d : Site} {as : List Action} {user : Option Text} {task : Nat} {v : Text} {s : Submission} {n : Int}
  {limit from_ : Nat}

theorem columnText_word (h : v ∈ verdictWords) : columnText 64 (some v) = v := by
  have hall : ∀ w ∈ verdictWords, columnText 64 (some w) = w := by decide
  exact hall v h

theorem columnText_status (status : JobStatus) : columnText 64 (some (statusText status)) = statusText status := by
  cases status <;> decide

theorem statusText_not_mem (status : JobStatus) : statusText status ∉ verdictWords := by
  cases status <;> decide

theorem name_ne_nil (h : v ∈ verdictNames) : v ≠ [] := by
  have hall : ∀ w ∈ verdictNames, w ≠ [] := by decide
  exact hall v h

theorem jobStatus_eq_some (h : d.jobStatus s = some v) : ∃ status, statusText status = v := by
  obtain ⟨j, -, hj⟩ := Option.map_eq_some_iff.mp h
  exact ⟨j.status, hj⟩

/-- What is shown is the verdict or, without one, the state of the job. -/
theorem displayed_iff (hs : verdictRows.holds n s) (hv : v ≠ []) :
    (d.submissionRow s).verdict = v ↔ s.verdict = some v ∨ d.Unjudged v s := by
  have hshown : (d.submissionRow s).verdict = columnText 64 (s.verdict.or (d.jobStatus s)) := by
    rw [submissionRow, shownVerdict, hs.1, Option.none_or]
  rw [hshown, Unjudged]
  cases hverdict : s.verdict with
  | some w => simp [columnText_word (hs.2 w hverdict)]
  | none =>
      cases hjob : d.jobStatus s with
      | none =>
          have hempty : columnText 64 none = [] := rfl
          simp [hempty, hv.symm]
      | some t =>
          obtain ⟨status, rfl⟩ := jobStatus_eq_some hjob
          simp [columnText_status]

theorem passes_verdict (hv : v ≠ []) (s : Submission) : d.passes { user, task, verdict := some v } s =
    (d.passes { user, task } s && s.verdict = some v) := by
  simp [passes, hv]

/-- The rows below the cursor agree if the filter keeps what is displayed. -/
theorem page_displaying (h : ∀ s ∈ d.submissions, s.submissionId < (from_ : Int) →
    d.passes { user, task } s = true →
      ((d.submissionRow s).verdict = v ↔ s.verdict = some v)) (hv : v ≠ []) :
    d.pageRows { user, task, verdict := some v } limit from_ =
      page Submission.submissionId limit (from_ : Int) (d.displaying user task v) := by
  have hbelow : below Submission.submissionId (from_ : Int) (d.matching { user, task, verdict := some v }) =
      below Submission.submissionId (from_ : Int) (d.displaying user task v) := by
    rw [matching, displaying, below_reverse, below_reverse]
    congr 1
    apply List.filter_congr
    intro s hs
    rw [passes_verdict hv]
    by_cases hlt : s.submissionId < (from_ : Int)
    · cases hpasses : d.passes { user, task } s with
      | false => simp
      | true => simp [h s hs hlt hpasses]
    · simp [hlt]
  rw [pageRows, page, hbelow, page]

/-- The filter by verdict shows what is displayed for the verdicts of the grader, and for the other two as long as
no row is in that state. -/
theorem verdict_filter_iff (d : Site) (as : List Action) (hreached : d.queue = (after as).db) (from_ limit : Nat)
    (user : Option Text) (task : Nat) (v : Text) (hv : v ∈ verdictNames) :
    d.SelectsDisplayed from_ limit user task v ↔ v ∈ verdictWords ∨ limit = 0 ∨
      ∀ s ∈ d.submissions, s.submissionId < (from_ : Int) → d.passes { user, task } s = true → ¬d.Unjudged v s := by
  have hne := name_ne_nil hv
  have hrows : ∀ s ∈ d.submissions, verdictRows.holds d.queue.sequence s := by
    intro s hs
    rw [submissions, hreached] at hs
    rw [hreached]
    exact (rows_after verdictRows as).rows s.submissionId s (Table.mem_rows_iff.mp hs)
  have hfetch := fetchSubmissions_eq d { user, task, verdict := some v } limit from_
  simp only [SelectsDisplayed, hfetch, Option.map_some, Option.some.injEq]
  constructor
  · intro heq
    by_contra hnot
    simp only [not_or, not_forall, Classical.not_not] at hnot
    obtain ⟨hwords, hlimit, s, hs, hlt, hpasses, hunjudged⟩ := hnot
    have hnone : d.pageRows { user, task, verdict := some v } limit from_ = [] := by
      apply List.eq_nil_iff_forall_not_mem.mpr
      intro s' hs'
      obtain ⟨hmem, hpasses'⟩ := mem_matching.mp (List.mem_filter.mp (List.mem_of_mem_take hs')).1
      rw [passes_verdict hne] at hpasses'
      have hverdict := of_decide_eq_true (Bool.and_eq_true_iff.mp hpasses').2
      exact hwords ((hrows s' hmem).2 v hverdict)
    rw [hnone, List.map_nil, eq_comm, List.map_eq_nil_iff, page_eq_nil_iff (Nat.pos_of_ne_zero hlimit)] at heq
    have hin : s ∈ below Submission.submissionId (from_ : Int) (d.displaying user task v) := by
      rw [displaying, below_reverse, List.mem_reverse, List.mem_filter]
      have hdisplayed := (displayed_iff (hrows s hs) hne).mpr (Or.inr hunjudged)
      exact ⟨hs, by simp [hlt, hpasses, hdisplayed]⟩
    rw [heq] at hin
    cases hin
  · intro hcond
    by_cases hlimit : limit = 0
    · rw [hlimit]
      rfl
    · refine congrArg (List.map d.submissionRow) (page_displaying (fun s hs hlt hpasses => ?_) hne)
      rw [displayed_iff (hrows s hs) hne]
      apply or_iff_left
      intro hunjudged
      rcases hcond with hwords | hzero | hno
      · obtain ⟨status, rfl⟩ := jobStatus_eq_some hunjudged.2
        exact statusText_not_mem status hwords
      · exact hlimit hzero
      · exact hno s hs hlt hpasses hunjudged

theorem verdict_filter_accepted :
    ({ queue := (after [anEnqueue]).db } : Site).SelectsDisplayed (2 ^ 32 - 1) 20 none 0
    "accepted".toList :=
  (verdict_filter_iff { queue := (after [anEnqueue]).db } [anEnqueue] rfl (2 ^ 32 - 1) 20 none 0
    "accepted".toList (by decide)).mpr (Or.inl (by decide))

/-- A submission that waits is displayed as `queued`, and the filter does not find it. -/
theorem verdict_filter_misses_queued : ¬ ∀ (d : Site) (as : List Action), d.queue = (after as).db →
    ∀ (from_ limit : Nat) (user : Option Text) (task : Nat), ∀ v ∈ verdictNames,
      d.SelectsDisplayed from_ limit user task v := by
  intro h
  have hselects := h { queue := (after [anEnqueue]).db } [anEnqueue] rfl (2 ^ 32 - 1) 20 none 0 "queued".toList
    (by decide)
  have hlengths := congrArg (Option.map List.length) hselects
  exact absurd hlengths (by decide)

end Verdicts

end Site

end Tle.Web
