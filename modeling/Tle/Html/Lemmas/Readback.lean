import Tle.Html.EscapeTheorems
import Tle.Html.ViewTheorems

/-!
# What a page tells of a value it has escaped

The escaped text can be read back.
-/

namespace Tle.Html
open Tle.Lib

/-! ## The page of a submission -/

variable {detail : SubmissionDetail} {username : Option Text} {now : Option ServerTime} {output output' : Text}

/-- The end of the page of a submission. -/
def compilerSection (output : Text) : Out :=
  if cstr output ≠ [] then
    [.fixed "<h2>Compiler output</h2><pre><code>", .escaped output, .fixed "</code></pre>"]
  else []

theorem viewSubmissionDetail_eq (detail : SubmissionDetail) : viewSubmissionDetail detail =
    viewSubmissionDetail { detail with compilerOutput := [] } ++ compilerSection detail.compilerOutput := by
  simp only [viewSubmissionDetail, compilerSection, List.append_assoc]
  rfl

theorem bytes_page_detail (username : Option Text) (now : Option ServerTime) (detail : SubmissionDetail) :
    ∃ before after, ∀ output,
      ((View.submissionDetail { detail with compilerOutput := output }).page username now).bytes =
        before ++ (compilerSection output).bytes ++ after := by
  refine ⟨(htmlPageHeader username (some "submission detail") ++
    viewSubmissionDetail { detail with compilerOutput := [] }).bytes, (htmlPageFooter now).bytes, fun output => ?_⟩
  rw [View.page, View.body, viewSubmissionDetail_eq]
  simp only [Out.bytes_append, List.append_assoc]
  rfl

theorem compilerSection_inj :
    (compilerSection output).bytes = (compilerSection output').bytes ↔ cstr output = cstr output' := by
  constructor
  · intro h
    unfold compilerSection at h
    split_ifs at h with hout hout' hout'
    · simp only [Out.bytes_cons, Out.bytes_nil, Piece.bytes] at h
      exact htmlEscapeText_inj.mp (List.append_cancel_right (List.append_cancel_left h))
    · simp [Piece.bytes] at h
    · simp [Piece.bytes] at h
    · rw [not_not.mp hout, not_not.mp hout']
  · intro h
    simp only [compilerSection, h]
    split_ifs
    · simp only [Out.bytes_cons, Piece.bytes, htmlEscapeText, h]
    · rfl

/-- Two outputs of the compiler print the same page only if they are the same. -/
theorem bytes_page_detail_inj :
    ((View.submissionDetail { detail with compilerOutput := output }).page username now).bytes =
      ((View.submissionDetail { detail with compilerOutput := output' }).page username now).bytes ↔
    cstr output = cstr output' := by
  obtain ⟨before, after, hpage⟩ := bytes_page_detail username now detail
  rw [hpage, hpage, List.append_left_inj, List.append_right_inj, compilerSection_inj]

end Tle.Html
