import Tle.Lib.Cursor
import Tle.Queue.Lemmas.Submissions
import Tle.Web.Site

/-!
# The list of submissions, page by page

`fetch_submissions` as a page of the rows that pass its filter, and a reader who goes on from the last row of each
page while submissions come in.
-/

namespace Tle.Web
open Tle.Lib Tle.Html Tle.Queue

/-- The parameters of `fetch_submissions` that select rows. -/
structure Filter where
  user : Option Text := none
  task : Nat := 0
  verdict : Option Text := none
  deriving DecidableEq

namespace Site

variable (d : Site) (f : Filter)

def passes (s : Submission) : Bool :=
  (f.user.getD [] = [] || d.username s = f.user) && (f.task = 0 || s.taskPk = toInt32 f.task) &&
    (f.verdict.getD [] = [] || s.verdict = f.verdict)

/-- The rows that pass, the newest first. -/
def matching : List Submission := (d.submissions.filter (d.passes f)).reverse

/-- The rows of a page below `from_`. -/
def pageRows (limit from_ : Nat) : List Submission :=
  page Submission.submissionId limit (from_ : Int) (d.matching f)

variable {d f} {limit from_ : Nat} {s : Submission}

theorem mem_matching : s ∈ d.matching f ↔ s ∈ d.submissions ∧ d.passes f s = true := by
  rw [matching, List.mem_reverse, List.mem_filter]

theorem matching_descending (d : Site) (f : Filter) : Descending Submission.submissionId (d.matching f) := by
  rw [Descending, matching, List.pairwise_reverse]
  exact d.queue.submissions.sorted.filter _

theorem below_reverse (k : Int) (p : Submission → Bool) (rows : List Submission) :
    below Submission.submissionId k (rows.filter p).reverse =
      (rows.filter fun s => s.submissionId < k && p s).reverse := by
  rw [below, List.filter_reverse, List.filter_filter]

theorem fetchSubmissions_eq (d : Site) (f : Filter) (limit from_ : Nat) :
    d.fetchSubmissions true from_ limit f.user f.task f.verdict =
      some ((d.pageRows f limit from_).map d.submissionRow,
        (((d.pageRows f limit from_).map d.submissionRow).getLast?.map (·.submissionId)).getD 0) := by
  have hrows : (d.submissions.filter fun s => s.submissionId < (from_ : Int) &&
      (f.user.getD [] = [] || d.username s = f.user) && (f.task = 0 || s.taskPk = toInt32 f.task) &&
      (f.verdict.getD [] = [] || s.verdict = f.verdict)).reverse =
      below Submission.submissionId (from_ : Int) (d.matching f) := by
    rw [below, matching, ← List.filter_reverse, ← List.filter_reverse, List.filter_filter]
    congr 1
    funext s
    simp only [passes, Bool.and_assoc]
  unfold fetchSubmissions
  simp only [↓reduceIte, hrows]
  rfl

/-! ## While submissions come in -/

def enqueueAll (d : Site) (calls : List EnqueueCall) : Site :=
  { d with queue := run (fun queue c => (enqueueSubmission c (.idle queue)).1.committed) d.queue calls }

/-- `d'` is `d` with more submissions. -/
structure Grows (d d' : Site) : Prop where
  queue : d.queue.Extends d'.queue
  others : d' = { d with queue := d'.queue }

theorem Grows.refl (d : Site) : d.Grows d := ⟨.refl _, rfl⟩

theorem Grows.enqueueAll {d' : Site} (h : d.Grows d') (calls : List EnqueueCall) :
    d.Grows (d'.enqueueAll calls) where
  queue := run_keeps h.queue (fun queue c hqueue => hqueue.trans (.enqueueSubmission queue c)) calls
  others := by
    rw [Site.enqueueAll, h.others]

section Grows

variable {d' : Site}

theorem passes_grows (h : d.Grows d') (f : Filter) (s : Submission) : d'.passes f s = d.passes f s := by
  rw [h.others]
  rfl

/-- The new rows have numbers above all that were used. -/
theorem below_matching_grows (h : d.Grows d') (f : Filter) {k : Int} (hk : k ≤ d.queue.sequence + 1) :
    below Submission.submissionId k (d'.matching f) = below Submission.submissionId k (d.matching f) := by
  have hrows := h.queue.rows k hk
  have hcommute : ∀ d₁ : Site, below Submission.submissionId k (d₁.matching f) =
      ((d₁.submissions.filter fun s => s.submissionId < k).filter (d₁.passes f)).reverse := by
    intro d₁
    rw [below, matching, List.filter_reverse, List.filter_filter, List.filter_filter]
    simp only [Bool.and_comm]
  have hpasses : d'.passes f = d.passes f := funext (passes_grows h f)
  rw [hcommute, hcommute, submissions, submissions, hrows, hpasses]

theorem submissionRow_grows (h : d.Grows d') (hs : s.submissionId ≤ d.queue.sequence) :
    d'.submissionRow s = d.submissionRow s := by
  have hjob : d'.jobStatus s = d.jobStatus s := by
    rw [jobStatus, h.queue.jobs _ hs, jobStatus]
  have hverdict : d'.shownVerdict s = d.shownVerdict s := by
    rw [shownVerdict, hjob, shownVerdict]
  unfold submissionRow
  rw [hverdict, h.others]
  rfl

end Grows

end Site

/-! ## The reader -/

/-- The parameter of the next call, and the rows so far. -/
structure Paging where
  site : Site
  from_ : Nat := 2 ^ 32 - 1
  shown : List SubmissionRow := []
  ended : Bool := false

/-- A call, and the submissions that come in after it. -/
structure PageCall where
  limit : Nat
  enqueued : List EnqueueCall := []

/-- The call from the last row of the one before, until one returns no rows. -/
def Paging.fetch (f : Filter) (limit : Nat) (p : Paging) : Paging :=
  if p.ended then p
  else match p.site.fetchSubmissions true p.from_ limit f.user f.task f.verdict with
  | some (row :: rows, lastId) => { p with from_ := lastId, shown := p.shown ++ row :: rows }
  | _ => { p with ended := true }

def Paging.step (f : Filter) (p : Paging) (c : PageCall) : Paging :=
  let p := p.fetch f c.limit
  { p with site := p.site.enqueueAll c.enqueued }

namespace Paging

variable {d : Site} {f : Filter} {p : Paging} {w : Walk Submission Int} {limit n : Nat}

/-- The reader is on the walk through the rows of `d`. -/
structure Follows (d : Site) (f : Filter) (n : Nat) (p : Paging) (w : Walk Submission Int) : Prop where
  going : w.Going Submission.submissionId ((2 ^ 32 - 1 : Nat) : Int) (d.matching f) n
  grows : d.Grows p.site
  unchanged : n = 0 → p.site = d
  from_ : (p.from_ : Int) = w.cursor
  shown : p.shown = w.shown.map d.submissionRow
  ended : p.ended = w.ended

/-- Each row has a number that `unsigned` holds, below the first one of the reader. -/
def InRange (d : Site) (f : Filter) : Prop :=
  ∀ s ∈ d.matching f, 0 ≤ s.submissionId ∧ s.submissionId < 2 ^ 32 - 1

theorem columnUnsigned_eq {k : Int} (h : 0 ≤ k ∧ k < 2 ^ 32) : (columnUnsigned (some k) : Int) = k := by
  simp only [columnUnsigned, toUnsigned, Option.getD_some, BitVec.toNat_ofInt]
  omega

theorem fetch_of_nil (hgoes : p.ended = false) (hrows : p.site.pageRows f limit p.from_ = []) :
    p.fetch f limit = { p with ended := true } := by
  simp [fetch, hgoes, Site.fetchSubmissions_eq, hrows]

theorem fetch_of_last {last : Submission} (hgoes : p.ended = false)
    (hlast : (p.site.pageRows f limit p.from_).getLast? = some last) :
    p.fetch f limit = { p with
      from_ := columnUnsigned (some last.submissionId)
      shown := p.shown ++ (p.site.pageRows f limit p.from_).map p.site.submissionRow } := by
  obtain ⟨row, rows, hrows⟩ := List.exists_cons_of_ne_nil
    (List.ne_nil_of_mem (List.mem_of_getLast? hlast) : p.site.pageRows f limit p.from_ ≠ [])
  have hlastRow : (((p.site.pageRows f limit p.from_).map p.site.submissionRow).getLast?.map
      (·.submissionId)).getD 0 = columnUnsigned (some last.submissionId) := by
    rw [List.getLast?_map, hlast]
    rfl
  unfold fetch
  rw [if_neg (by simp [hgoes]), Site.fetchSubmissions_eq, hlastRow, hrows]
  rfl

theorem fetch_follows (h : Follows d f n p w) (hrange : InRange d f) (hnumbered : d.queue.Numbered)
    (hlimit : 0 < limit) :
    ∃ w', Follows d f (n + 1) (p.fetch f limit) w' := by
  have hagrees : Walk.Agrees Submission.submissionId ((2 ^ 32 - 1 : Nat) : Int) (d.matching f) n
      (p.site.matching f) := by
    constructor
    · intro hzero
      rw [h.unchanged hzero]
    · intro s hs
      have hle := (hnumbered s (Site.mem_matching.mp hs).1).2
      exact Site.below_matching_grows h.grows f (by omega)
  have hgoing := h.going.visit (Site.matching_descending d f) hagrees hlimit
  refine ⟨w.visit Submission.submissionId (p.site.matching f) limit, ?_⟩
  cases hended : w.ended with
  | true =>
      rw [Walk.visit_of_ended hended] at hgoing ⊢
      have hsame : p.fetch f limit = p := by rw [fetch, if_pos (h.ended.trans hended)]
      rw [hsame]
      exact ⟨hgoing, h.grows, nofun, h.from_, h.shown, h.ended⟩
  | false =>
      have hgoes := h.ended.trans hended
      have hpage : page Submission.submissionId limit w.cursor (p.site.matching f) =
          p.site.pageRows f limit p.from_ := by
        rw [Site.pageRows, h.from_]
      have hall : ∀ s ∈ p.site.pageRows f limit p.from_, s ∈ d.matching f := by
        intro s hs
        rw [← hpage, page, h.going.agrees hended hagrees] at hs
        exact (List.mem_filter.mp (List.mem_of_mem_take hs)).1
      cases hlast : (p.site.pageRows f limit p.from_).getLast? with
      | none =>
          have hnil := List.getLast?_eq_none_iff.mp hlast
          rw [Walk.visit_of_nil hended (hpage.trans hnil)] at hgoing ⊢
          rw [fetch_of_nil hgoes hnil]
          exact ⟨hgoing, h.grows, nofun, h.from_, h.shown, rfl⟩
      | some last =>
          have hmem := hall last (List.mem_of_getLast? hlast)
          have hrow : ∀ s ∈ p.site.pageRows f limit p.from_, p.site.submissionRow s = d.submissionRow s := by
            intro s hs
            exact Site.submissionRow_grows h.grows (hnumbered s (Site.mem_matching.mp (hall s hs)).1).2
          rw [Walk.visit_of_last hended (hpage ▸ hlast), hpage] at hgoing ⊢
          rw [fetch_of_last hgoes hlast]
          have hid := hrange last hmem
          refine ⟨hgoing, h.grows, nofun, columnUnsigned_eq ⟨hid.1, by omega⟩, ?_, h.ended⟩
          rw [List.map_append, h.shown, List.map_congr_left hrow]

theorem step_follows (h : Follows d f n p w) (hrange : InRange d f) (hnumbered : d.queue.Numbered) (c : PageCall)
    (hlimit : 0 < c.limit) : ∃ w', Follows d f (n + 1) (p.step f c) w' := by
  obtain ⟨w', h'⟩ := fetch_follows h hrange hnumbered hlimit
  exact ⟨w', h'.going, h'.grows.enqueueAll c.enqueued, nofun, h'.from_, h'.shown, h'.ended⟩

theorem run_follows (hrange : InRange d f) (hnumbered : d.queue.Numbered) (calls : List PageCall)
    (hlimits : ∀ c ∈ calls, 0 < c.limit) : ∃ w, Follows d f calls.length (run (step f) { site := d } calls) w := by
  induction calls using List.reverseRecOn with
  | nil =>
      have hstart : ∀ s ∈ d.matching f, s.submissionId < ((2 ^ 32 - 1 : Nat) : Int) := fun s hs => (hrange s hs).2
      exact ⟨_, .start_going hstart, .refl d, fun _ => rfl, rfl, rfl, rfl⟩
  | append_singleton calls c ih =>
      obtain ⟨w, h⟩ := ih fun c' hc' => hlimits c' (List.mem_append_left _ hc')
      rw [run_snoc, List.length_append, List.length_singleton]
      exact step_follows h hrange hnumbered c (hlimits c (by simp))

end Paging

end Tle.Web
