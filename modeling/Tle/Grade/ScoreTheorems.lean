import Tle.Grade.Lemmas.Brackets
import Tle.Grade.Theorems

/-!
# Result, score and result string
-/

namespace Tle.Grade
open Tle.Lib

variable {task : Task} {groups : List Group} {raws : Nat → Option Text} {k n : Nat}

theorem gradingGroups_stored (groups : List Group) :
    gradingGroups (some groups) (some groups) = groups := by
  cases groups <;> rfl

/-! ## The score -/

/-- `k` is the smallest failing case. -/
structure FirstFailure (raws : Nat → Option Text) (n k : Nat) (raw : Text) : Prop where
  pos : 1 ≤ k
  le : k ≤ n
  fails : raws k = some raw
  before : ∀ j, 1 ≤ j → j < k → raws j = none

theorem FirstFailure.findSome? {raw : Text} (h : FirstFailure raws n k raw) :
    (casesUpTo n).findSome? raws = some raw := by
  have hsplit : casesUpTo n = casesUpTo (k - 1) ++ k :: List.range' (k + 1) (n - k) := by
    have hk : List.range' k (n - k + 1) = k :: List.range' (k + 1) (n - k) := List.range'_succ ..
    have hpos := h.pos
    have hle := h.le
    have happend := @List.range'_append_1 1 (k - 1) (n - k + 1)
    rw [show 1 + (k - 1) = k by omega, show k - 1 + (n - k + 1) = n by omega, hk] at happend
    exact happend.symm
  have hnone : (casesUpTo (k - 1)).findSome? raws = none := by
    rw [List.findSome?_eq_none_iff]
    intro j hj
    rw [mem_casesUpTo] at hj
    exact h.before j hj.1 (by omega)
  rw [hsplit, List.findSome?_append, hnone, List.findSome?_cons, h.fails]
  rfl

/-- All cases passed: accepted with the full score. Otherwise the message of the smallest failing
case, with the share of the cases that passed, or the scores of the groups without a failing case
unless a failing message names no case. -/
theorem gradeCases_spec (task : Task) (groups : List Group) (raws : Nat → Option Text)
    (hpart : groups ≠ [] → Range.Partition (groups.map Group.range) task.countCases)
    (hown : OwnMessages raws task.countCases) :
    ((∀ k, 1 ≤ k → k ≤ task.countCases → raws k = none) →
      (gradeCases task (some groups) (some groups) raws).1 = "accepted!".toList ∧
        (gradeCases task (some groups) (some groups) raws).2.1 = task.maxScore) ∧
    ∀ k raw, FirstFailure raws task.countCases k raw →
      (gradeCases task (some groups) (some groups) raws).1 = raw ∧
      (groups = [] → (gradeCases task (some groups) (some groups) raws).2.1 =
        task.maxScore * ((casesUpTo task.countCases).countP fun k => (raws k).isNone) /
          task.countCases) ∧
      (groups ≠ [] → AnonymousFailure raws task.countCases →
        (gradeCases task (some groups) (some groups) raws).2.1 = 0) ∧
      (groups ≠ [] → ¬ AnonymousFailure raws task.countCases →
        (gradeCases task (some groups) (some groups) raws).2.1 =
          ((groups.filter fun g => g.range.members.all fun k => (raws k).isNone).map
            Group.score).sum) := by
  refine ⟨fun hall => gradeCases_passed _ _ hall, fun k raw hfirst => ?_⟩
  obtain ⟨hresult, hscore⟩ := gradeCases_failed (some groups) (some groups) hfirst.findSome?
  rw [gradingGroups_stored] at hscore
  refine ⟨hresult, fun huniform => ?_, fun hne hanon => ?_, fun hne hnamed => ?_⟩
  · rw [hscore, if_pos huniform]
  · rw [hscore, if_neg hne]
    simp only [groupFailed_of_anonymous hanon, Bool.not_true, List.filter_false, List.map_nil,
      List.sum_nil]
  · rw [hscore, if_neg hne]
    have hfilter : (groups.filter fun g => !groupFailed raws task.countCases g) =
        groups.filter fun g => g.range.members.all fun k => (raws k).isNone := by
      apply List.filter_congr
      intro g hg
      have hiff := groupFailed_iff_case task.countCases_lt hown hnamed (hpart hne) hg
      rw [Bool.eq_iff_iff, Bool.not_eq_true', ← Bool.not_eq_true, hiff]
      simp only [List.all_eq_true, Range.mem_members, Option.isNone_iff_eq_none, not_exists, not_and,
        ne_eq, not_not]
    rw [hfilter]

/-- The groups `[1]` for 40 points and `[2]` for 60. -/
def twoGroups : List Group := [⟨1, 1, 40⟩, ⟨2, 1, 60⟩]

def secondWrong (k : Nat) : Option Text := if k = 2 then some (wrongAnswer 2) else none

theorem twoGroups_chain : Range.Chain 1 (twoGroups.map Group.range) (aTask.countCases + 1) := by
  simp [twoGroups, Range.Chain, Group.range, aTask]

theorem gradeCases_second_wrong :
    (gradeCases aTask (some twoGroups) (some twoGroups) secondWrong).1 = "wa#2".toList ∧
      (gradeCases aTask (some twoGroups) (some twoGroups) secondWrong).2.1 = 40 := by
  have hown : OwnMessages secondWrong 2 := by
    intro k raw hpos hle hraw
    unfold secondWrong at hraw
    split at hraw
    · rename_i hk
      cases hraw
      subst hk
      exact ⟨.wrongAnswer, fun _ => ⟨"wa".toList, rfl⟩⟩
    · cases hraw
  have hfirst : FirstFailure secondWrong 2 2 (wrongAnswer 2) := by
    refine ⟨by decide, by decide, rfl, fun j _ hj => ?_⟩
    have hne : j ≠ 2 := by omega
    simp [secondWrong, hne]
  have hnamed : ¬ AnonymousFailure secondWrong 2 := by
    rintro ⟨k, raw, -, -, hraw, hhash⟩
    unfold secondWrong at hraw
    split at hraw
    · cases hraw
      exact hhash (by decide)
    · cases hraw
  obtain ⟨hresult, -, -, hscore⟩ := (gradeCases_spec aTask twoGroups secondWrong
    (fun _ => twoGroups_chain.partition) hown).2 2 (wrongAnswer 2) hfirst
  refine ⟨hresult, (hscore (by decide) hnamed).trans ?_⟩
  decide +kernel

/-! ## The result string -/

/-- The result string has one bracket for each group exactly when there is at most one group. -/
theorem subtaskResults_eq_iff (task : Task) (groups : List Group) (raws : Nat → Option Text)
    (huniform : groups = [] → 1 ≤ task.countCases)
    (hchain : groups ≠ [] → Range.Chain 1 (groups.map Group.range) (task.countCases + 1)) :
    (gradeCases task (some groups) (some groups) raws).2.2 = bracketed raws groups task.countCases ↔
      groups.length ≤ 1 := by
  simp only [gradeCases, gradingGroups_stored, scoreCases_subtaskResults]
  by_cases hempty : groups = []
  · subst hempty
    exact iff_of_true (subtaskResults_uniform (huniform rfl) task.countCases_lt) (by simp)
  · have hgroups := hchain hempty
    rw [subtaskResults_groups hgroups task.countCases_lt, bracketed, if_neg hempty,
      writtenBrackets_eq_iff hgroups, List.length_map]

theorem subtaskResults_one_group :
    (gradeCases aTask (some [⟨1, 2, 100⟩]) (some [⟨1, 2, 100⟩]) secondWrong).2.2 =
      "[AW]".toList := by
  refine ((subtaskResults_eq_iff aTask [⟨1, 2, 100⟩] secondWrong (by simp) fun _ => ?_).mpr
    (by simp)).trans (by decide)
  simp [Range.Chain, Group.range, aTask]

/-- Two groups are written `[A][[W]`. -/
theorem subtaskResults_two_groups :
    ¬ (∀ (task : Task) (groups : List Group) (raws : Nat → Option Text),
      (groups = [] → 1 ≤ task.countCases) →
      (groups ≠ [] → Range.Chain 1 (groups.map Group.range) (task.countCases + 1)) →
      (gradeCases task (some groups) (some groups) raws).2.2 =
        bracketed raws groups task.countCases) := by
  intro h
  have hcases := h aTask twoGroups secondWrong (fun hnil => absurd hnil (by decide))
    (fun _ => twoGroups_chain)
  have hwritten : (gradeCases aTask (some twoGroups) (some twoGroups) secondWrong).2.2 =
      "[A][[W]".toList := by decide
  have hbracketed : bracketed secondWrong twoGroups aTask.countCases = "[A][W]".toList := by
    decide
  rw [hwritten, hbracketed] at hcases
  exact absurd hcases (by decide)

end Tle.Grade
