import Tle.Grade.Tokens

/-!
# What the comparison decides
-/

namespace Tle.Grade
open Tle.Lib

def tokens (s : Text) : List Text := fields isWhitespace s

/-! ## Reading one token -/

theorem skipWhitespace_none {fp : Text} (h : skipWhitespace fp = none) : tokens fp = [] := by
  induction fp with
  | nil => rfl
  | cons c fp ih =>
      unfold skipWhitespace at h
      split at h
      · rename_i hc
        exact (fields_cons_sep hc).trans (ih h)
      · cases h

theorem skipWhitespace_some {fp fp' : Text} {ch : Char} (h : skipWhitespace fp = some (ch, fp')) :
    isWhitespace ch = false ∧ tokens fp = tokens (ch :: fp') := by
  induction fp with
  | nil => cases h
  | cons c fp ih =>
      unfold skipWhitespace at h
      split at h
      · rename_i hc
        obtain ⟨hch, htokens⟩ := ih h
        exact ⟨hch, (fields_cons_sep hc).trans htokens⟩
      · rename_i hc
        cases h
        exact ⟨by simpa using hc, rfl⟩

theorem readToken_no_whitespace (fp : Text) : ∀ c ∈ (readToken fp).1, isWhitespace c = false := by
  induction fp with
  | nil => simp [readToken]
  | cons ch fp ih =>
      unfold readToken
      split
      · simp
      · rename_i hch
        intro c hc
        rcases List.mem_cons.mp hc with rfl | hmem
        · simpa using hch
        · exact ih c hmem

/-- The token read ends at white space or at the end of the file. -/
theorem readToken_split (fp : Text) : ∃ rest, fp = (readToken fp).1 ++ rest ∧
    (∀ c, rest.head? = some c → isWhitespace c = true) ∧ tokens rest = tokens (readToken fp).2 := by
  induction fp with
  | nil => exact ⟨[], by simp [readToken], by simp, rfl⟩
  | cons ch fp ih =>
      unfold readToken
      split
      · rename_i hch
        exact ⟨ch :: fp, rfl, by simp [hch], fields_cons_sep hch⟩
      · obtain ⟨rest, hfp, hhead, htokens⟩ := ih
        exact ⟨rest, congrArg (ch :: ·) hfp, hhead, htokens⟩

theorem getNextToken_none {fp fp' : Text} (h : getNextToken fp = (none, fp')) : tokens fp = [] := by
  unfold getNextToken at h
  split at h
  · rename_i hskip
    exact skipWhitespace_none hskip
  · cases h

theorem getNextToken_some {fp fp' t : Text} (h : getNextToken fp = (some t, fp')) :
    tokens fp = t :: tokens fp' ∧ ∀ c ∈ t, isWhitespace c = false := by
  unfold getNextToken at h
  split at h
  · cases h
  · rename_i ch rest hskip
    obtain ⟨hch, htokens⟩ := skipWhitespace_some hskip
    obtain ⟨after, hrest, hhead, hafter⟩ := readToken_split rest
    cases h
    have hclean : ∀ c ∈ ch :: (readToken rest).1, isWhitespace c = false := by
      intro c hc
      rcases List.mem_cons.mp hc with rfl | hmem
      · exact hch
      · exact readToken_no_whitespace rest c hmem
    refine ⟨?_, hclean⟩
    rw [htokens, ← hafter]
    nth_rewrite 1 [hrest]
    exact fields_append (List.cons_ne_nil _ _) hclean hhead

/-- A token holds no NUL, so `strcmp` compares all of it. -/
theorem cstr_of_no_whitespace {t : Text} (h : ∀ c ∈ t, isWhitespace c = false) : cstr t = t := by
  unfold cstr
  rw [List.takeWhile_eq_self_iff]
  intro c hc
  have hne : c ≠ '\x00' := by
    rintro rfl
    exact absurd (h _ hc) (by decide)
  simpa using hne

/-! ## The comparison -/

theorem matchTokens_eq (f1 f2 : Text) :
    matchTokens f1 f2 = if tokens f1 = tokens f2 then 1 else 0 := by
  rw [matchTokens]
  split
  · rename_i h1 h2
    rw [getNextToken_none h1, getNextToken_none h2]
    rfl
  · rename_i h1 h2
    rw [(getNextToken_some h1).1, getNextToken_none h2]
    simp
  · rename_i h1 h2
    rw [getNextToken_none h1, (getNextToken_some h2).1]
    simp
  · rename_i t1 f1' t2 f2' h1 h2
    obtain ⟨htokens1, hclean1⟩ := getNextToken_some h1
    obtain ⟨htokens2, hclean2⟩ := getNextToken_some h2
    have hshort : f1'.length < f1.length := getNextToken_length h1
    have hrest := matchTokens_eq f1' f2'
    rw [cstr_of_no_whitespace hclean1, cstr_of_no_whitespace hclean2, htokens1, htokens2, hrest]
    by_cases heq : t1 = t2 <;> simp [heq]
termination_by f1.length
decreasing_by exact hshort

/-- The result is 1 exactly when both files open and hold the same tokens, and -1 when one does not
open. -/
theorem safeTkcmp_eq (f1 f2 : Option Text) : safeTkcmp f1 f2 = match f1, f2 with
    | some f1, some f2 => if tokens f1 = tokens f2 then 1 else 0
    | _, _ => -1 := by
  cases f1 with
  | none => rfl
  | some f1 =>
      cases f2 with
      | none => rfl
      | some f2 => exact matchTokens_eq f1 f2

end Tle.Grade
