import Tle.Html.Lemmas.Parts
import Tle.Html.Views

/-!
# What the pages do with their data
-/

namespace Tle.Html
open Tle.Lib

variable {value : Text} {out : Out} {n : Nat} {p : Bool} {f : Flags}

/-! ## Escaped pieces -/

def special : Text := "&<>\"'".toList

/-- The bytes of a piece are a text of the program or the escaped image of a value. -/
def Piece.Escapes : Piece → Prop
  | fixed _ => True
  | escaped _ => True
  | plain value => cstr value = htmlEscapeText value

def Out.Escapes (out : Out) : Prop := ∀ piece ∈ out, piece.Escapes

/-- No character that `html_escape_text` replaces. -/
def NoSpecial (s : Text) : Prop := ∀ c ∈ s, c ∉ special

instance (s : Text) : Decidable (NoSpecial s) := List.decidableBAll _ s

abbrev Clean (value : Text) : Prop := NoSpecial (cstr value)

theorem escapeChar_of_not_special {c : Char} (h : c ∉ special) : escapeChar c = [c] := by
  unfold escapeChar
  split
  all_goals first | exact absurd (by decide) h | rfl

theorem escapeChar_of_special {c : Char} (h : c ∈ special) : 2 ≤ (escapeChar c).length := by
  have hall : special.all (fun d => 2 ≤ (escapeChar d).length) = true := by decide
  exact of_decide_eq_true (List.all_eq_true.mp hall c h)

theorem length_le_escaped (s : Text) : s.length ≤ (s.flatMap escapeChar).length := by
  induction s with
  | nil => exact Nat.le_refl _
  | cons c s ih =>
      have hone : 1 ≤ (escapeChar c).length := by
        by_cases hc : c ∈ special
        · exact Nat.le_of_succ_le (escapeChar_of_special hc)
        · simp [escapeChar_of_not_special hc]
      simp only [List.flatMap_cons, List.length_append, List.length_cons]
      omega

theorem eq_escaped_iff (s : Text) : s = s.flatMap escapeChar ↔ NoSpecial s := by
  induction s with
  | nil => simp [NoSpecial]
  | cons c s ih =>
      rw [List.flatMap_cons, NoSpecial, List.forall_mem_cons, ← NoSpecial, ← ih]
      by_cases hc : c ∈ special
      · -- the image is longer than the text
        refine iff_of_false (fun heq => ?_) (fun h => h.1 hc)
        have hlength := congrArg List.length heq
        have hlong := escapeChar_of_special hc
        have hrest := length_le_escaped s
        simp only [List.length_append, List.length_cons] at hlength
        omega
      · rw [escapeChar_of_not_special hc, List.singleton_append, List.cons.injEq]
        simp [hc]

theorem escapes_plain : (Piece.plain value).Escapes ↔ Clean value := eq_escaped_iff (cstr value)

/-! ## Values without special characters -/

theorem NoSpecial.clean (h : NoSpecial value) : Clean value :=
  fun c hc => h c (List.takeWhile_subset _ hc)

theorem NoSpecial.append {s t : Text} (hs : NoSpecial s) (ht : NoSpecial t) : NoSpecial (s ++ t) := by
  intro c hc
  rcases List.mem_append.mp hc with hc | hc
  · exact hs c hc
  · exact ht c hc

theorem NoSpecial.cons {c : Char} {s : Text} (hc : c ∉ special) (hs : NoSpecial s) : NoSpecial (c :: s) :=
  List.forall_mem_cons.mpr ⟨hc, hs⟩

theorem NoSpecial.of_subset {s t : Text} (h : NoSpecial t) (hsub : s ⊆ t) : NoSpecial s :=
  fun c hc => h c (hsub hc)

theorem noSpecial_formatUnsigned (n : Nat) : NoSpecial (formatUnsigned n) := by
  have hall : special.all (fun d => !d.isDigit) = true := by decide
  intro c hc hspecial
  have hnot := List.all_eq_true.mp hall c hspecial
  rw [isDigit_of_mem_formatUnsigned hc] at hnot
  cases hnot

theorem noSpecial_formatInt (z : Int) : NoSpecial (formatInt z) := by
  cases z with
  | ofNat n => exact noSpecial_formatUnsigned n
  | negSucc n => exact .cons (by decide) (noSpecial_formatUnsigned (n + 1))

theorem noSpecial_zeroPad {digits : Text} (width : Nat) (h : NoSpecial digits) :
    NoSpecial (zeroPad width digits) := by
  refine .append (fun c hc => ?_) h
  rw [(List.mem_replicate.mp hc).2]
  decide

theorem noSpecial_formatFixed (width decimals : Nat) (d : Double) : NoSpecial (formatFixed width decimals d) := by
  cases d with
  | nan => exact (by decide : NoSpecial "nan".toList)
  | infinite negative =>
      cases negative with
      | false => exact (by decide : NoSpecial "inf".toList)
      | true => exact (by decide : NoSpecial "-inf".toList)
  | finite q =>
      have hdigits : ∀ m, NoSpecial (zeroPad (decimals + 1) (formatUnsigned m)) :=
        fun m => noSpecial_zeroPad _ (noSpecial_formatUnsigned m)
      simp only [formatFixed]
      generalize (roundHalfEven ((if q < 0 then -q else q) * 10 ^ decimals)).toNat = m
      have hwhole : NoSpecial ((zeroPad (decimals + 1) (formatUnsigned m)).take
          ((zeroPad (decimals + 1) (formatUnsigned m)).length - decimals)) :=
        (hdigits m).of_subset (List.take_subset _ _)
      have hnumber : NoSpecial ((zeroPad (decimals + 1) (formatUnsigned m)).take
          ((zeroPad (decimals + 1) (formatUnsigned m)).length - decimals) ++
            '.' :: (zeroPad (decimals + 1) (formatUnsigned m)).drop
              ((zeroPad (decimals + 1) (formatUnsigned m)).length - decimals)) :=
        hwhole.append (.cons (by decide) ((hdigits m).of_subset (List.drop_subset _ _)))
      split_ifs
      · exact .cons (by decide) (noSpecial_zeroPad _ hwhole)
      · exact .cons (by decide) (noSpecial_zeroPad _ hnumber)
      · exact noSpecial_zeroPad _ hwhole
      · exact noSpecial_zeroPad _ hnumber

theorem noSpecial_serverTime (t : ServerTime) : NoSpecial t.format := by
  have htwo : ∀ m, NoSpecial (zeroPad 2 (formatUnsigned m)) :=
    fun m => noSpecial_zeroPad 2 (noSpecial_formatUnsigned m)
  have hhalf : NoSpecial (if t.hour < 12 then "AM".toList else "PM".toList) := by
    split <;> decide
  have hsep : ∀ c ∈ "/ :".toList, ∀ m, NoSpecial (c :: zeroPad 2 (formatUnsigned m)) := by
    intro c hc m
    exact .cons ((by decide : NoSpecial "/ :".toList) c hc) (htwo m)
  exact .append (.append (.append (.append (.append (htwo _) (hsep '/' (by decide) _))
    (hsep '/' (by decide) _)) (hsep ' ' (by decide) _)) (hsep ':' (by decide) _)) hhalf

/-! ## Pages that escape -/

@[simp] theorem escapes_nil : Out.Escapes [] := fun _ h => nomatch h

@[simp] theorem escapes_cons {piece : Piece} :
    Out.Escapes (piece :: out) ↔ piece.Escapes ∧ out.Escapes := List.forall_mem_cons

@[simp] theorem escapes_append {out' : Out} : Out.Escapes (out ++ out') ↔ out.Escapes ∧ out'.Escapes :=
  List.forall_mem_append

@[simp] theorem escapes_flatMap {α : Type} {l : List α} {g : α → Out} :
    Out.Escapes (l.flatMap g) ↔ ∀ a ∈ l, (g a).Escapes := List.forall_mem_flatMap

@[simp] theorem escapes_fixed (text : String) : (Piece.fixed text).Escapes := trivial

@[simp] theorem escapes_escaped (value : Text) : (Piece.escaped value).Escapes := trivial

@[simp] theorem escapes_number (n : Nat) : (number n).Escapes :=
  escapes_plain.mpr (noSpecial_formatUnsigned n).clean

@[simp] theorem escapes_int (z : Int) : (Piece.plain (formatInt z)).Escapes :=
  escapes_plain.mpr (noSpecial_formatInt z).clean

@[simp] theorem escapes_fixedPoint (width decimals : Nat) (d : Double) :
    (Piece.plain (formatFixed width decimals d)).Escapes :=
  escapes_plain.mpr (noSpecial_formatFixed width decimals d).clean

@[simp] theorem escapes_padded (width n : Nat) :
    (Piece.plain (zeroPad width (formatUnsigned n))).Escapes :=
  escapes_plain.mpr (noSpecial_zeroPad width (noSpecial_formatUnsigned n)).clean

@[simp] theorem escapes_score (d : Double) : (score d).Escapes := escapes_fixedPoint 0 2 d

@[simp] theorem escapes_when (text : String) : Out.Escapes (when p text) := by
  cases p <;> simp [when]

@[simp] theorem escapes_ite {q : Prop} [Decidable q] {out' : Out} (h : out.Escapes) (h' : out'.Escapes) :
    Out.Escapes (if q then out else out') := by
  split
  · exact h
  · exact h'

theorem escapes_header (username : Option Text) (title : Option String) :
    (htmlPageHeader username title).Escapes := by
  unfold htmlPageHeader
  cases username.filter (cstr · ≠ []) <;> simp [-String.reduceAppend]

theorem escapes_footer (now : Option ServerTime) : (htmlPageFooter now).Escapes := by
  unfold htmlPageFooter
  cases now with
  | none => simp
  | some t => simpa using escapes_plain.mpr (noSpecial_serverTime t).clean

/-- The part of a piece that the program has written. -/
def Piece.own : Piece → Text
  | fixed text => text.toList
  | _ => []

/-- Every angle bracket and quote of a page that escapes is the program's own. -/
theorem markup_of_escapes (h : out.Escapes) :
    out.bytes.filter (· ∈ markup) = (out.flatMap Piece.own).filter (· ∈ markup) := by
  have hdata : ∀ value, (htmlEscapeText value).filter (· ∈ markup) = [] := by
    intro value
    simp only [List.filter_eq_nil_iff, decide_eq_true_eq]
    exact fun c hc => not_markup_of_mem_escaped hc
  induction out with
  | nil => rfl
  | cons piece out ih =>
      rcases escapes_cons.mp h with ⟨hpiece, hout⟩
      rw [Out.bytes_cons, List.flatMap_cons, List.filter_append, List.filter_append, ih hout]
      congr 1
      cases piece with
      | fixed text => rfl
      | escaped value => exact hdata value
      | plain value => exact (congrArg _ hpiece).trans (hdata value)

/-! ### Statements -/

theorem escapes_row (line : Text) (header : Bool) : (appendTableRow line header).Escapes := by
  simp [appendTableRow]

theorem escapes_text (f : Flags) (line : Text) : (appendText f line).2.Escapes := by
  simp only [appendText]
  split_ifs <;> simp [closeParagraph, closeList, appendParagraph, markdownInline]

theorem escapes_block (f : Flags) (line : Text) (next : Option Text) : (appendBlock f line next).2.Escapes := by
  unfold appendBlock
  split_ifs <;> simp [closeParagraph, closeList, markdownInline, escapes_row, escapes_text]

theorem escapes_lines (f : Flags) (lines : List Text) : (appendLines f lines).2.Escapes := by
  induction lines generalizing f with
  | nil => exact escapes_nil
  | cons line rest ih =>
      have htable : (closeTable f line).2.Escapes := by
        unfold closeTable
        split <;> simp
      exact escapes_append.mpr ⟨escapes_append.mpr ⟨htable, escapes_block _ _ _⟩, ih _⟩

@[simp] theorem escapes_markdown (text : Option Text) : (htmlMarkdown text).Escapes := by
  refine escapes_append.mpr ⟨escapes_lines _ _, ?_⟩
  simp [closeAll, closeParagraph, closeList]

/-! ## The views -/

def IsHex (token : Text) : Prop := ∀ c ∈ token, c ∈ "0123456789abcdef".toList

instance (token : Text) : Decidable (IsHex token) := List.decidableBAll _ token

def IsResults (subtaskResults : Text) : Prop := ∀ c ∈ subtaskResults, c ∈ "[]AWTMRE".toList

/-- What the csrf tokens and the result strings of a view look like. -/
def View.Tokens : View → Prop
  | taskList _ csrf => IsHex (csrf.getD [])
  | submit _ _ csrf _ => IsHex (csrf.getD [])
  | submissionList rows _ => ∀ row ∈ rows, IsResults row.subtaskResults
  | _ => True

/-- The view is not the one that prints a task name as it is, or the name has no special character. -/
def View.NameClean : View → Prop
  | submit (some name) _ _ _ => Clean name
  | _ => True

theorem IsHex.escapes {token : Text} (h : IsHex token) : (Piece.plain token).Escapes := by
  have hall : NoSpecial "0123456789abcdef".toList := by decide
  exact escapes_plain.mpr (NoSpecial.clean fun c hc => hall c (h c hc))

theorem IsResults.escapes {results : Text} (h : IsResults results) : (Piece.plain results).Escapes := by
  have hall : NoSpecial "[]AWTMRE".toList := by decide
  exact escapes_plain.mpr (NoSpecial.clean fun c hc => hall c (h c hc))

theorem escapes_status {row : SubmissionRow} (h : IsResults row.subtaskResults) :
    (compactSubmissionStatus row).Escapes := by
  simp only [compactSubmissionStatus]
  split_ifs <;> simp [h.escapes]

theorem escapes_submit {name csrf : Option Text} {taskPk : Nat} {outputOnly : Bool}
    (htokens : IsHex (csrf.getD [])) :
    (viewSubmit name taskPk csrf outputOnly).Escapes ↔ Clean (name.getD "task".toList) := by
  simp [viewSubmit, htokens.escapes, escapes_plain, -String.reduceAppend]

theorem escapes_body (username : Option Text) (v : View) (htokens : v.Tokens) :
    (v.body username).Escapes ↔ v.NameClean := by
  cases v with
  | submit name taskPk csrf outputOnly =>
      rw [View.body, escapes_submit htokens]
      cases name with
      | none => exact iff_of_true (NoSpecial.clean (by decide)) trivial
      | some name => exact Iff.rfl
  | frontPage items => exact iff_of_true (by simp [View.body, viewFrontPage, taskListTable, -String.reduceAppend]) trivial
  | taskList items csrf =>
      have hform : ∀ item, (bookmarkForm item csrf).Escapes := by
        simp [bookmarkForm, IsHex.escapes htokens]
      refine iff_of_true ?_ trivial
      simp only [View.body, viewTaskList, escapes_append, escapes_cons, escapes_flatMap, escapes_fixed,
        escapes_number, escapes_escaped, escapes_nil, and_self, true_and, and_true]
      exact fun item _ => escapes_ite (hform item) escapes_nil
  | submissionList rows lastId =>
      refine iff_of_true ?_ trivial
      have hstatus : ∀ row ∈ rows, (compactSubmissionStatus row).Escapes :=
        fun row hrow => escapes_status (htokens row hrow)
      simp only [View.body, viewSubmissionList, escapes_append, escapes_cons, escapes_flatMap, escapes_fixed,
        escapes_number, escapes_score, escapes_escaped, escapes_nil, and_self, true_and, and_true]
      exact ⟨hstatus, escapes_ite escapes_nil (by simp)⟩
  | submissionDetail submission =>
      refine iff_of_true ?_ trivial
      simp only [View.body, viewSubmissionDetail]
      split_ifs <;> simp [-String.reduceAppend]
  | admin items => exact iff_of_true (by simp [View.body, viewAdmin, -String.reduceAppend]) trivial
  | task t text statementPdf =>
      refine iff_of_true ?_ trivial
      cases statementPdf <;> simp [View.body, viewTask, statementFrame, -String.reduceAppend]
  | statement t markdown => exact iff_of_true (by simp [View.body, viewStatement, -String.reduceAppend]) trivial
  | pdfStatement t => exact iff_of_true (by simp [View.body, viewPdfStatement, statementFrame, -String.reduceAppend]) trivial
  | register => exact iff_of_true (by simp [View.body, viewRegister, -String.reduceAppend]) trivial
  | login => exact iff_of_true (by simp [View.body, viewLogin, -String.reduceAppend]) trivial
  | leaderboard rows => exact iff_of_true (by simp [View.body, viewLeaderboard, -String.reduceAppend]) trivial
  | code id text =>
      refine iff_of_true ?_ trivial
      cases text <;> simp [View.body, viewCode, escapedOr, -String.reduceAppend]

/-- Each value is on the page as its escaped image, but for a task name with a special character on the
page to submit. -/
theorem view_escapes_iff (v : View) (username : Option Text) (now : Option ServerTime) (htokens : v.Tokens) :
    (v.page username now).Escapes ↔ v.NameClean := by
  rw [View.page, escapes_append, escapes_append, escapes_body username v htokens]
  simp [escapes_header, escapes_footer]

theorem view_escapes_plus :
    ((View.submit (some "a+b".toList) 1 (some "0f".toList) false).page none none).Escapes :=
  (view_escapes_iff (.submit (some "a+b".toList) 1 (some "0f".toList) false) none none
    (by decide : IsHex "0f".toList)).mpr (by decide : Clean "a+b".toList)

theorem view_not_escapes : ¬ ∀ (v : View) (username : Option Text) (now : Option ServerTime), v.Tokens →
    (v.page username now).Escapes := by
  intro h
  have hpage := h (.submit (some "<b>".toList) 1 (some "0f".toList) false) none none
    (by decide : IsHex "0f".toList)
  have hname : (Piece.plain "<b>".toList).Escapes := hpage _ (by simp [View.page, View.body, viewSubmit, -String.reduceAppend])
  exact absurd (escapes_plain.mp hname) (by decide)

end Tle.Html
