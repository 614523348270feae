import Tle.Html.ViewTheorems
import Tle.Lib.Numerals
import Tle.Web.NumberTheorems
import Tle.Web.Lemmas.Numbers
import Tle.Web.Paging

/-!
# The link to the previous page

A visitor of the list follows the link below it until a page has none.
-/

namespace Tle.Web
open Tle.Lib Tle.Html Tle.Queue

/-! ## The link -/

/-- The address behind `Previous page`. -/
def previousPage (rows : List SubmissionRow) (lastId : Nat) : Option Text :=
  if rows = [] then none else some ("?page=submissions&from=".toList ++ formatUnsigned lastId)

theorem nul_not_mem_formatUnsigned (n : Nat) : '\x00' ∉ formatUnsigned n :=
  fun h => ne_nul_of_isDigit (isDigit_of_mem_formatUnsigned h) rfl

/-- In the page the address is escaped. -/
theorem htmlEscapeText_href (n : Nat) : htmlEscapeText ("?page=submissions&from=".toList ++ formatUnsigned n) =
    "?page=submissions&amp;from=".toList ++ formatUnsigned n := by
  have hnul : '\x00' ∉ "?page=submissions&from=".toList ++ formatUnsigned n := by
    rw [List.mem_append]
    exact not_or.mpr ⟨by decide, nul_not_mem_formatUnsigned n⟩
  have hfront : "?page=submissions&from=".toList.flatMap escapeChar = "?page=submissions&amp;from=".toList := by
    decide
  rw [htmlEscapeText, cstr_eq_self.mpr hnul, List.flatMap_append, hfront,
    ← (eq_escaped_iff _).mpr (noSpecial_formatUnsigned n)]

/-- The list ends with the link. -/
theorem viewSubmissionList_ends (rows : List SubmissionRow) (lastId : Nat) :
    ∃ front, (viewSubmissionList rows lastId).bytes = front ++ ((previousPage rows lastId).elim [] fun href =>
      "<a href=\"".toList ++ htmlEscapeText href ++ "\">Previous page</a>".toList) := by
  unfold viewSubmissionList previousPage
  split
  · exact ⟨_, by rw [Out.bytes_append]; rfl⟩
  · rw [Out.bytes_append]
    refine ⟨_, congrArg (Out.bytes _ ++ ·) ?_⟩
    have hdigits : cstr (formatUnsigned lastId) = formatUnsigned lastId :=
      cstr_eq_self.mpr (nul_not_mem_formatUnsigned lastId)
    have hopen : "<a href=\"?page=submissions&amp;from=".toList =
        "<a href=\"".toList ++ "?page=submissions&amp;from=".toList := rfl
    simp only [Out.bytes_cons, Out.bytes_nil, number, Piece.bytes, hdigits, Option.elim_some, htmlEscapeText_href,
      hopen, List.append_assoc, List.append_nil]

/-! ## Following a link -/

/-- The arguments of an address that has no escapes. -/
def queryArguments (href : Text) : List (Text × Text) :=
  ((href.drop 1).splitOnP (· = '&')).map fun part => (part.takeWhile (· ≠ '='), (part.dropWhile (· ≠ '=')).drop 1)

def argument (href : Text) (name : String) : Option Text :=
  ((queryArguments href).find? (·.1 = name.toList)).map (·.2)

/-- The next request of the same visitor: other arguments, the same headers. -/
def GetRequest.follow (r : GetRequest) (href : Text) : GetRequest :=
  { r with
    page := argument href "page"
    pk := argument href "pk"
    id := argument href "id"
    from_ := argument href "from"
    count := argument href "count"
    user := argument href "user"
    task := argument href "task"
    verdict := argument href "verdict"
    mine := argument href "mine"
    q := argument href "q"
    state := argument href "state"
    showSolved := argument href "show_solved" }

/-- What a request for the list asks for. -/
structure Query where
  filter : Filter := {}
  limit : Nat := 20
  from_ : Nat := 2 ^ 32 - 1
  deriving DecidableEq

def GetRequest.userFilter (auth : Auth) (r : GetRequest) : Option Text :=
  if r.mine.isSome then some auth.username else r.user

/-- The query of a request that `ahc_echo` accepts. -/
def GetRequest.query (a : Answers) (r : GetRequest) : Option Query :=
  let auth := authenticate a r.toRequest
  if r.pageNamed ≠ some .submissions ∨ (r.mine.isSome && auth.authFail) = true then none
  else
    let known := r.verdict.getD [] = [] || isOneOf Site.verdictNames (r.verdict.getD [])
    match Site.taskFilter r.task, known, Site.countNumber r.count, Site.fromNumber r.from_ with
    | some task, true, some limit, some from_ =>
        some { filter := { user := r.userFilter auth, task, verdict := r.verdict }, limit, from_ }
    | _, _, _, _ => none

namespace Site

variable {d : Site} {a : Answers} {r : GetRequest} {q : Query} {n m : Nat}

/-- The rows that are shown for a query. -/
def shownRows (d : Site) (q : Query) : List Submission := d.pageRows q.filter q.limit q.from_

def lastId (d : Site) (q : Query) : Nat :=
  (((d.shownRows q).map d.submissionRow).getLast?.map (·.submissionId)).getD 0

/-- `ahc_echo` answers a query with its rows and the link below them. -/
theorem get_query (hurl : r.url ≠ "/favicon.svg".toList) (hupload : r.uploadSize = 0) (env : Surroundings)
    (hfetch : env.fetch_ok = true) (server : Server) (h : r.query env.answers = some q) :
    (d.get env r server).1 = view env (authenticate env.answers r.toRequest)
      (.submissionList ((d.shownRows q).map d.submissionRow) (d.lastId q)) := by
  simp only [GetRequest.query] at h
  split at h
  · cases h
  · rename_i hallowed
    obtain ⟨hpage, hmine⟩ := not_or.mp hallowed
    split at h
    · rename_i task limit from_ htask hknown hcount hfrom
      obtain rfl := Option.some.inj h
      have hrows := d.fetchSubmissions_eq
        { user := r.userFilter (authenticate env.answers r.toRequest), task, verdict := r.verdict } limit from_
      have hget : d.get env r server = (d.submissionsPage env r (authenticate env.answers r.toRequest), none) := by
        have hupload' : ¬r.uploadSize ≠ 0 := not_not_intro hupload
        simp only [get, if_neg hurl, if_neg hupload', Classical.not_not.mp hpage]
      rw [hget, submissionsPage, if_neg hmine]
      simp only [htask, hknown, hcount, hfrom, hfetch]
      rw [GetRequest.userFilter] at hrows
      rw [hrows]
      rfl
    · cases h

/-- The pages of a visitor who follows at most `n - 1` links. -/
def browse (d : Site) (a : Answers) : Nat → GetRequest → List (Query × List Submission)
  | 0, _ => []
  | n + 1, r =>
      match r.query a with
      | none => []
      | some q =>
          (q, d.shownRows q) :: match previousPage ((d.shownRows q).map d.submissionRow) (d.lastId q) with
            | none => []
            | some href => d.browse a n (r.follow href)

/-! ### What the next request asks for -/

theorem queryArguments_previousPage (n : Nat) :
    queryArguments ("?page=submissions&from=".toList ++ formatUnsigned n) =
      [("page".toList, "submissions".toList), ("from".toList, formatUnsigned n)] := by
  have hdigits : ∀ {c}, c ∈ formatUnsigned n → c.isDigit = true := isDigit_of_mem_formatUnsigned
  have hparts : ("page=submissions".toList ++ '&' :: ("from=".toList ++ formatUnsigned n)).splitOnP (· = '&') =
      ["page=submissions".toList, "from=".toList ++ formatUnsigned n] := by
    have hpage : "page=submissions".toList.all (fun c => decide (c = '&') = false) = true := by decide
    have hfront : ∀ c ∈ "page=submissions".toList, decide (c = '&') = false :=
      fun c hc => of_decide_eq_true (List.all_eq_true.mp hpage c hc)
    rw [List.splitOnP_append_cons_of_forall_mem hfront '&' (by decide), List.splitOnP_eq_singleton]
    intro c hc
    apply decide_eq_false
    rintro rfl
    rcases List.mem_append.mp hc with hc | hc
    · exact absurd hc (by decide)
    · cases hdigits hc
  have hdrop : ("?page=submissions&from=".toList ++ formatUnsigned n).drop 1 =
      "page=submissions".toList ++ '&' :: ("from=".toList ++ formatUnsigned n) := rfl
  rw [queryArguments, hdrop, hparts]
  rfl

theorem query_follow (hn : n < 2 ^ 32) :
    (r.follow ("?page=submissions&from=".toList ++ formatUnsigned n)).query a = some { from_ := n } := by
  have hfrom : fromNumber (some (formatUnsigned n)) = some n := by
    rw [NumberParameter.fromNumber_eq_some]
    refine ⟨false, n, isNumber_formatUnsigned n, by omega, ?_⟩
    rw [signed, if_neg Bool.false_ne_true]
    omega
  have hpage : GetPage.named "submissions".toList = some .submissions := by decide
  have hfollow : r.follow ("?page=submissions&from=".toList ++ formatUnsigned n) =
      { toRequest := { r.toRequest with page := some "submissions".toList, pk := none }
        url := r.url
        uploadSize := r.uploadSize
        from_ := some (formatUnsigned n) } := by
    simp only [GetRequest.follow, argument, queryArguments_previousPage]
    rfl
  simp only [hfollow, GetRequest.query, GetRequest.pageNamed, Option.getD_some, hpage, hfrom]
  rfl

/-! ### The pages one after the other -/

theorem lastId_lt (d : Site) (q : Query) : d.lastId q < 2 ^ 32 := by
  unfold lastId
  cases hlast : ((d.shownRows q).map d.submissionRow).getLast? with
  | none => simp
  | some row =>
      obtain ⟨s, -, rfl⟩ := List.mem_map.mp (List.mem_of_getLast? hlast)
      exact (BitVec.ofInt 32 s.submissionId).isLt

variable {last : Submission}

theorem lastId_eq (hlast : (d.shownRows q).getLast? = some last)
    (hid : 0 ≤ last.submissionId ∧ last.submissionId < 2 ^ 32) : (d.lastId q : Int) = last.submissionId := by
  rw [lastId, List.getLast?_map, hlast]
  exact Paging.columnUnsigned_eq hid

theorem browse_of_nil (hquery : r.query a = some q) (hnil : d.shownRows q = []) (m : Nat) :
    d.browse a (m + 1) r = [(q, [])] := by
  simp [browse, hquery, hnil, previousPage]

theorem browse_of_last (hquery : r.query a = some q) (hlast : (d.shownRows q).getLast? = some last) (m : Nat) :
    d.browse a (m + 1) r = (q, d.shownRows q) ::
      d.browse a m (r.follow ("?page=submissions&from=".toList ++ formatUnsigned (d.lastId q))) := by
  have hne : (d.shownRows q).map d.submissionRow ≠ [] := by
    intro hnil
    rw [List.map_eq_nil_iff.mp hnil] at hlast
    cases hlast
  simp only [browse, hquery, previousPage, if_neg hne]

/-- From the second page on there are 20 rows on a page. -/
theorem browse_limit (hn : n < 2 ^ 32) (hquery : r.query a = some { from_ := n }) (m : Nat) :
    ∀ visit ∈ d.browse a m r, visit.1.limit = 20 := by
  induction m generalizing n r with
  | zero => exact fun visit hvisit => absurd hvisit List.not_mem_nil
  | succ m ih =>
      cases hlast : (d.shownRows { from_ := n }).getLast? with
      | none =>
          rw [browse_of_nil hquery (List.getLast?_eq_none_iff.mp hlast)]
          simp
      | some last =>
          rw [browse_of_last hquery hlast, List.forall_mem_cons]
          exact ⟨rfl, ih (d.lastId_lt _) (query_follow (d.lastId_lt _))⟩

/-- The rows of a page and those below its last one. -/
theorem shownRows_append (hlast : (d.shownRows q).getLast? = some last) :
    d.shownRows q ++ below Submission.submissionId last.submissionId (d.matching q.filter) =
      below Submission.submissionId (q.from_ : Int) (d.matching q.filter) :=
  page_append_below (d.matching_descending q.filter) hlast

theorem last_range (hnumbered : d.queue.Numbered) (hfrom : q.from_ < 2 ^ 32)
    (hlast : (d.shownRows q).getLast? = some last) : 0 ≤ last.submissionId ∧ last.submissionId < 2 ^ 32 := by
  obtain ⟨hmem, hlt⟩ := List.mem_filter.mp (List.mem_of_mem_take (List.mem_of_getLast? hlast))
  have hpos := (hnumbered last (mem_matching.mp hmem).1).1
  have hbelow : last.submissionId < (q.from_ : Int) := of_decide_eq_true hlt
  omega

/-- From the second page on all rows are shown. -/
theorem browse_rest (hnumbered : d.queue.Numbered) (hn : n < 2 ^ 32) (hquery : r.query a = some { from_ := n }) :
    ∃ k, ∀ m, k ≤ m →
      (d.browse a m r).flatMap (·.2) = below Submission.submissionId (n : Int) (d.matching {}) := by
  induction hlen : (below Submission.submissionId (n : Int) (d.matching {})).length using Nat.strong_induction_on
    generalizing n r with
  | _ len ih =>
      cases hlast : (d.shownRows { from_ := n }).getLast? with
      | none =>
          have hnil := List.getLast?_eq_none_iff.mp hlast
          have hbelow : below Submission.submissionId (n : Int) (d.matching {}) = [] :=
            (page_eq_nil_iff (Nat.succ_pos 19)).mp hnil
          refine ⟨1, fun m hm => ?_⟩
          obtain ⟨m, rfl⟩ := Nat.exists_eq_add_of_le' hm
          rw [browse_of_nil hquery hnil, hbelow]
          rfl
      | some last =>
          have hcut : d.shownRows { from_ := n } ++
              below Submission.submissionId last.submissionId (d.matching {}) =
              below Submission.submissionId (n : Int) (d.matching {}) := shownRows_append hlast
          have hid := lastId_eq hlast (last_range hnumbered hn hlast)
          have hshown := List.length_pos_of_mem (List.mem_of_getLast? hlast)
          have hlength := congrArg List.length hcut
          rw [List.length_append] at hlength
          obtain ⟨k, hk⟩ := ih _ (by rw [← hlen, hid]; omega) (d.lastId_lt _) (query_follow (d.lastId_lt _)) rfl
          refine ⟨k + 1, fun m hm => ?_⟩
          obtain ⟨m, rfl⟩ := Nat.exists_eq_add_of_le' (Nat.le_trans (Nat.le_add_left 1 k) hm)
          rw [browse_of_last hquery hlast, List.flatMap_cons, hk m (by omega), hid, hcut]

/-- What a visitor sees: the first page, and all rows behind its last one. -/
theorem browse_first (hnumbered : d.queue.Numbered) (hquery : r.query a = some q) (hfrom : q.from_ < 2 ^ 32)
    (hlast : (d.shownRows q).getLast? = some last) :
    ∃ k, ∀ m, k ≤ m → (d.browse a m r).flatMap (·.2) =
      d.shownRows q ++ below Submission.submissionId last.submissionId (d.matching {}) := by
  obtain ⟨k, hk⟩ := browse_rest hnumbered (d.lastId_lt q) (query_follow (r := r) (a := a) (d.lastId_lt q))
  refine ⟨k + 1, fun m hm => ?_⟩
  obtain ⟨m, rfl⟩ := Nat.exists_eq_add_of_le' (Nat.le_trans (Nat.le_add_left 1 k) hm)
  rw [browse_of_last hquery hlast, List.flatMap_cons, hk m (by omega),
    lastId_eq hlast (last_range hnumbered hfrom hlast)]

/-- The visitor sees the rows of the first query, and as many on a page. -/
structure KeepsQuery (d : Site) (a : Answers) (r : GetRequest) (q : Query) : Prop where
  visits : ∃ n, ∀ m, n ≤ m → (d.browse a m r).flatMap (·.2) = d.matching q.filter
  pageSize : ∀ m, ∀ visit ∈ d.browse a m r, visit.1.limit = q.limit

theorem countNumber_pos {count : Option Text} (h : countNumber count = some n) : 0 < n := by
  cases count with
  | none =>
      obtain rfl := Option.some.inj h
      decide
  | some count =>
      simp only [countNumber] at h
      split at h
      · rename_i hone
        obtain rfl := Option.some.inj h
        have hall : ∀ c ∈ ["20".toList, "50".toList, "100".toList], 0 < strtoul c := by decide
        exact hall count (isOneOf_iff.mp hone)
      · cases h

theorem query_from (hquery : r.query a = some q) (hfrom : r.from_ = none) : q.from_ = 2 ^ 32 - 1 ∧ 0 < q.limit := by
  simp only [GetRequest.query] at hquery
  split at hquery
  · cases hquery
  · split at hquery
    · rename_i hcount hnumber
      obtain rfl := Option.some.inj hquery
      rw [hfrom] at hnumber
      exact ⟨(Option.some.inj hnumber).symm, countNumber_pos hcount⟩
    · cases hquery

theorem browse_query_mem (hquery : r.query a = some q) (m : Nat) : ∃ rows, (q, rows) ∈ d.browse a (m + 1) r := by
  simp only [browse, hquery]
  exact ⟨_, List.mem_cons_self⟩

/-- Behind a row the filter is lost, unless all rows pass it. -/
theorem below_matching_iff {f : Filter} {k : Int} :
    below Submission.submissionId k (d.matching {}) = below Submission.submissionId k (d.matching f) ↔
      ∀ s ∈ d.submissions, s.submissionId < k → d.passes f s = true := by
  constructor
  · intro heq s hs hlt
    have hpasses : s ∈ d.matching {} := mem_matching.mpr ⟨hs, by simp [passes]⟩
    have hmem : s ∈ below Submission.submissionId k (d.matching {}) :=
      List.mem_filter.mpr ⟨hpasses, decide_eq_true hlt⟩
    rw [heq] at hmem
    exact (mem_matching.mp (List.mem_filter.mp hmem).1).2
  · intro h
    rw [matching, matching, below_reverse, below_reverse]
    congr 1
    apply List.filter_congr
    intro s hs
    by_cases hlt : s.submissionId < k
    · rw [h s hs hlt]
      simp [passes]
    · simp [hlt]

/-- Every row comes before the first cursor. -/
theorem below_from_iff : below Submission.submissionId (q.from_ : Int) (d.matching q.filter) = d.matching q.filter ↔
    ∀ s ∈ d.matching q.filter, s.submissionId < (q.from_ : Int) := by
  simp [below, List.filter_eq_self]

theorem keeps_of_nil (hquery : r.query a = some q) (hnil : d.shownRows q = []) :
    d.KeepsQuery a r q ↔ d.matching q.filter = [] := by
  constructor
  · rintro ⟨⟨n, hn⟩, -⟩
    have hvisits := hn (n + 1) (Nat.le_succ n)
    rw [browse_of_nil hquery hnil] at hvisits
    exact hvisits.symm
  · intro hempty
    constructor
    · refine ⟨1, fun m hm => ?_⟩
      obtain ⟨m, rfl⟩ := Nat.exists_eq_add_of_le' hm
      rw [browse_of_nil hquery hnil, hempty]
      rfl
    · intro m visit hvisit
      cases m with
      | zero => cases hvisit
      | succ m =>
          rw [browse_of_nil hquery hnil, List.mem_singleton] at hvisit
          rw [hvisit]

theorem keeps_of_last (hnumbered : d.queue.Numbered) (hquery : r.query a = some q) (hfrom : q.from_ < 2 ^ 32)
    (hlast : (d.shownRows q).getLast? = some last) : d.KeepsQuery a r q ↔
      below Submission.submissionId (q.from_ : Int) (d.matching q.filter) = d.matching q.filter ∧ q.limit = 20 ∧
        below Submission.submissionId last.submissionId (d.matching {}) =
          below Submission.submissionId last.submissionId (d.matching q.filter) := by
  obtain ⟨k, hk⟩ := browse_first (r := r) (a := a) hnumbered hquery hfrom hlast
  have hcut := shownRows_append hlast
  have hfirst : ∀ s ∈ d.shownRows q, s.submissionId < (q.from_ : Int) := fun s hs =>
    of_decide_eq_true (List.mem_filter.mp (List.mem_of_mem_take hs)).2
  constructor
  · rintro ⟨⟨n, hn⟩, hsize⟩
    have hvisits := (hk (max n k) (le_max_right n k)).symm.trans (hn (max n k) (le_max_left n k))
    have hbelow : below Submission.submissionId (q.from_ : Int) (d.matching q.filter) = d.matching q.filter := by
      rw [below_from_iff]
      intro s hs
      rw [← hvisits] at hs
      rcases List.mem_append.mp hs with hs | hs
      · exact hfirst s hs
      · have hlt : s.submissionId < last.submissionId := of_decide_eq_true (List.mem_filter.mp hs).2
        exact lt_trans hlt (hfirst last (List.mem_of_getLast? hlast))
    refine ⟨hbelow, ?_, ?_⟩
    · obtain ⟨rows, hsecond⟩ := browse_query_mem (d := d) (query_follow (r := r) (a := a) (d.lastId_lt q)) 0
      have hvisit := List.mem_cons_of_mem (q, d.shownRows q) hsecond
      rw [← browse_of_last hquery hlast] at hvisit
      exact (hsize 2 _ hvisit).symm
    · exact List.append_cancel_left (hvisits.trans (hbelow.symm.trans hcut.symm))
  · rintro ⟨hbelow, htwenty, hrest⟩
    constructor
    · refine ⟨k, fun m hm => ?_⟩
      rw [hk m hm, hrest, hcut, hbelow]
    · intro m
      cases m with
      | zero => exact fun visit hvisit => absurd hvisit List.not_mem_nil
      | succ m =>
          rw [browse_of_last hquery hlast, List.forall_mem_cons, htwenty]
          exact ⟨rfl, browse_limit (d.lastId_lt q) (query_follow (d.lastId_lt q)) m⟩

/-- The link keeps the query of a request for 20 rows if nothing else is older than its first page. -/
theorem keeps_query_iff (d : Site) (a : Answers) (r : GetRequest) (q : Query) (hnumbered : d.queue.Numbered)
    (hquery : r.query a = some q) (hfrom : r.from_ = none) :
    d.KeepsQuery a r q ↔ (∀ s ∈ d.matching q.filter, s.submissionId < 2 ^ 32 - 1) ∧
      (d.matching q.filter = [] ∨ q.limit = 20 ∧ ∀ last, ((d.matching q.filter).take 20).getLast? = some last →
        ∀ s ∈ d.submissions, s.submissionId < last.submissionId → d.passes q.filter s = true) := by
  obtain ⟨hstart, hlimit⟩ := query_from hquery hfrom
  have hcursor : (q.from_ : Int) = 2 ^ 32 - 1 := by omega
  have hall := below_from_iff (d := d) (q := q)
  rw [hcursor] at hall
  cases hlast : (d.shownRows q).getLast? with
  | none =>
      have hnil := List.getLast?_eq_none_iff.mp hlast
      have hbelow := (page_eq_nil_iff hlimit).mp hnil
      rw [keeps_of_nil hquery hnil, ← hall, ← hcursor, hbelow]
      constructor
      · intro hempty
        exact ⟨hempty.symm, Or.inl hempty⟩
      · intro h
        exact h.1.symm
  | some last =>
      rw [keeps_of_last hnumbered hquery (by omega) hlast, ← hall, ← hcursor, below_matching_iff]
      apply and_congr_right
      intro hbelow
      have hne : d.matching q.filter ≠ [] := by
        intro hempty
        have hmem := (List.mem_filter.mp (List.mem_of_mem_take (List.mem_of_getLast? hlast))).1
        rw [hempty] at hmem
        cases hmem
      rw [or_iff_right hne]
      apply and_congr_right
      intro htwenty
      have hshown : (d.matching q.filter).take 20 = d.shownRows q := by
        rw [shownRows, pageRows, page, hbelow, htwenty]
      rw [hshown, hlast]
      simp

/-- The tables with a submission for each of two tasks. -/
def twoTasks : Site where
  queue := (after [.enqueue { userId := -1, taskPk := 1, code := none, isPublic := false },
    .enqueue { userId := -1, taskPk := 2, code := none, isPublic := false }]).db

theorem keeps_query_unfiltered : twoTasks.KeepsQuery {} { page := some "submissions".toList } {} := by
  apply (keeps_query_iff twoTasks {} { page := some "submissions".toList } {} (numbered_after _) (by decide)
    rfl).mpr
  constructor
  · decide
  · exact Or.inr ⟨rfl, fun _ _ _ _ _ => by simp [passes]⟩

/-- The link below the submissions for the second task leads to the first. -/
theorem link_loses_task : ¬ ∀ (d : Site) (a : Answers) (r : GetRequest) (q : Query), d.queue.Numbered →
    r.query a = some q → r.from_ = none → d.KeepsQuery a r q := by
  intro h
  have hkeeps := h twoTasks {} { page := some "submissions".toList, task := some "2".toList }
    { filter := { task := 2 } }
    (numbered_after _) (by decide) rfl
  have hlast : (twoTasks.shownRows { filter := { task := 2 } }).getLast? =
      some { submissionId := 2, userId := none, taskPk := 2, code := none, isPublic := 0 } := by decide
  have hrest := ((keeps_of_last (numbered_after _) (by decide) (by decide) hlast).mp hkeeps).2.2
  exact absurd (congrArg List.length hrest) (by decide)

end Site

end Tle.Web
