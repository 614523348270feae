import Tle.Grade.OutcomeTheorems

/-!
# Solving more cases

Two runs of the built-in evaluator on one task, the second of which passes every case that the first
one passes.
-/

namespace Tle.Grade
open Tle.Lib

variable {task : Task} {groups : List Group} {raws raws₁ raws₂ : Nat → Option Text} {n : Nat}

/-! ## The cases of a run -/

theorem passed_or_firstFailure (raws : Nat → Option Text) (n : Nat) :
    (∀ k, 1 ≤ k → k ≤ n → raws k = none) ∨ ∃ k raw, FirstFailure raws n k raw := by
  induction n with
  | zero => exact Or.inl fun k hpos hle => absurd hle (by omega)
  | succ n ih =>
      obtain hall | ⟨k, raw, h⟩ := ih
      · cases hraw : raws (n + 1) with
        | none =>
            apply Or.inl
            intro k hpos hle
            obtain rfl | hlt := Nat.eq_or_lt_of_le hle
            · exact hraw
            · exact hall k hpos (Nat.le_of_lt_succ hlt)
        | some raw =>
            exact Or.inr ⟨n + 1, raw, Nat.le_add_left 1 n, Nat.le_refl _, hraw, fun j hpos hlt =>
              hall j hpos (Nat.le_of_lt_succ hlt)⟩
      · exact Or.inr ⟨k, raw, h.pos, Nat.le_succ_of_le h.le, h.fails, h.before⟩

/-! ## The groups that are solved -/

/-- All the cases of the group pass. -/
def Group.solved (raws : Nat → Option Text) (g : Group) : Bool :=
  g.range.members.all fun k => (raws k).isNone

theorem Group.solved_iff {g : Group} : g.solved raws = true ↔ ∀ k, g.range.Has k → raws k = none := by
  simp only [Group.solved, List.all_eq_true, Range.mem_members, Option.isNone_iff_eq_none]

def scoreOf (groups : List Group) (p : Group → Bool) : Rat := ((groups.filter p).map Group.score).sum

theorem scoreOf_nonneg (hscores : ∀ g ∈ groups, 0 ≤ g.score) (p : Group → Bool) : 0 ≤ scoreOf groups p := by
  apply List.sum_nonneg
  intro q hq
  obtain ⟨g, hg, rfl⟩ := List.mem_map.mp hq
  exact hscores g (List.mem_of_mem_filter hg)

theorem scoreOf_le (hscores : ∀ g ∈ groups, 0 ≤ g.score) {p q : Group → Bool}
    (hle : ∀ g ∈ groups, p g = true → q g = true) : scoreOf groups p ≤ scoreOf groups q := by
  have hfilter : (groups.filter q).filter p = groups.filter p := by
    rw [List.filter_filter]
    apply List.filter_congr
    intro g hg
    cases hp : p g with
    | false => rfl
    | true => rw [hle g hg hp, Bool.and_self]
  have hsub : (groups.filter p).Sublist (groups.filter q) := hfilter ▸ List.filter_sublist
  apply (hsub.map Group.score).sum_le_sum
  intro s hs
  obtain ⟨g, hg, rfl⟩ := List.mem_map.mp hs
  exact hscores g (List.mem_of_mem_filter hg)

/-! ## The score -/

section Score

variable (hmax : 0 ≤ task.maxScore) (hscores : ∀ g ∈ groups, 0 ≤ g.score)
  (hpart : groups ≠ [] → Range.Partition (groups.map Group.range) task.countCases)

include hmax hscores hpart

theorem score_le_maxScore (hown : OwnMessages raws task.countCases)
    (hothers : ∀ g ∈ groups, scoreOf groups (· ≠ g) ≤ task.maxScore) :
    (gradeCases task (some groups) (some groups) raws).2.1 ≤ task.maxScore := by
  obtain ⟨hpassed, hfailed⟩ := gradeCases_spec task groups raws hpart hown
  obtain hall | ⟨k, raw, hfirst⟩ := passed_or_firstFailure raws task.countCases
  · exact (hpassed hall).2.le
  · obtain ⟨-, huniform, hanonymous, hgroups⟩ := hfailed k raw hfirst
    by_cases hne : groups = []
    · rw [huniform hne]
      obtain ⟨q, hq, -, hle⟩ := share_inRange hmax (@countP_casesUpTo_le task.countCases
        fun k => (raws k).isNone)
      cases hq
      exact hle
    · by_cases hanon : AnonymousFailure raws task.countCases
      · rw [hanonymous hne hanon]
        exact hmax
      · rw [hgroups hne hanon]
        -- the group of the failing case is not solved
        have hhas : 0 < (groups.map Group.range).countP fun r => decide (r.Has k) := by
          rw [(hpart hne).once k hfirst.pos hfirst.le]
          exact Nat.one_pos
        obtain ⟨r, hr, hk⟩ := List.countP_pos_iff.mp hhas
        obtain ⟨g, hg, rfl⟩ := List.mem_map.mp hr
        refine le_trans (scoreOf_le hscores fun g' _ hsolved => ?_) (hothers g hg)
        rw [decide_eq_true_eq]
        rintro rfl
        have hnone := Group.solved_iff.mp hsolved k (of_decide_eq_true hk)
        rw [hfirst.fails] at hnone
        cases hnone

theorem gradeCases_mono (hown₁ : OwnMessages raws₁ task.countCases)
    (hown₂ : OwnMessages raws₂ task.countCases)
    (hothers : ∀ g ∈ groups, scoreOf groups (· ≠ g) ≤ task.maxScore)
    (hpassed : ∀ k, 1 ≤ k → k ≤ task.countCases → raws₁ k = none → raws₂ k = none)
    (hanon : AnonymousFailure raws₂ task.countCases → AnonymousFailure raws₁ task.countCases) :
    (gradeCases task (some groups) (some groups) raws₁).2.1 ≤
      (gradeCases task (some groups) (some groups) raws₂).2.1 := by
  obtain ⟨haccepted, hfailed₂⟩ := gradeCases_spec task groups raws₂ hpart hown₂
  obtain hall | ⟨k₂, raw₂, hfirst₂⟩ := passed_or_firstFailure raws₂ task.countCases
  · rw [(haccepted hall).2]
    exact score_le_maxScore hmax hscores hpart hown₁ hothers
  · obtain ⟨k₁, raw₁, hfirst₁⟩ : ∃ k raw, FirstFailure raws₁ task.countCases k raw := by
      apply (passed_or_firstFailure raws₁ task.countCases).resolve_left
      intro hall
      have hnone := hpassed k₂ hfirst₂.pos hfirst₂.le (hall k₂ hfirst₂.pos hfirst₂.le)
      rw [hfirst₂.fails] at hnone
      cases hnone
    obtain ⟨-, huniform₁, hanonymous₁, hgroups₁⟩ :=
      (gradeCases_spec task groups raws₁ hpart hown₁).2 k₁ raw₁ hfirst₁
    obtain ⟨-, huniform₂, hanonymous₂, hgroups₂⟩ := hfailed₂ k₂ raw₂ hfirst₂
    by_cases hne : groups = []
    · have hcount : ((casesUpTo task.countCases).countP fun k => (raws₁ k).isNone) ≤
          (casesUpTo task.countCases).countP fun k => (raws₂ k).isNone := by
        apply List.countP_mono_left
        intro k hk hnone
        obtain ⟨hpos, hle⟩ := mem_casesUpTo.mp hk
        exact Option.isNone_iff_eq_none.mpr (hpassed k hpos hle (Option.isNone_iff_eq_none.mp hnone))
      rw [huniform₁ hne, huniform₂ hne]
      refine div_le_div_of_nonneg_right ?_ (Nat.cast_nonneg _)
      exact mul_le_mul_of_nonneg_left (Nat.cast_le.mpr hcount) hmax
    · by_cases hanon₂ : AnonymousFailure raws₂ task.countCases
      · rw [hanonymous₁ hne (hanon hanon₂), hanonymous₂ hne hanon₂]
      · rw [hgroups₂ hne hanon₂]
        by_cases hanon₁ : AnonymousFailure raws₁ task.countCases
        · rw [hanonymous₁ hne hanon₁]
          exact scoreOf_nonneg hscores _
        · rw [hgroups₁ hne hanon₁]
          apply scoreOf_le hscores
          intro g hg hsolved
          apply Group.solved_iff.mpr
          intro k hk
          obtain ⟨hpos, hle⟩ := (hpart hne).inside g.range (List.mem_map_of_mem hg) k hk
          exact hpassed k hpos hle (Group.solved_iff.mp hsolved k hk)

end Score

/-! ## Two runs -/

/-- A run without scripts of its own that finds these groups. -/
structure Run.BuiltIn (r : Run) (task : Task) (groups : List Group) : Prop extends r.ReachesCases task where
  firstGroups : r.firstGroups = some groups
  secondGroups : r.secondGroups = some groups
  scoreScript : r.scoreScript = .absent

theorem Run.BuiltIn.score {r : Run} (h : r.BuiltIn task groups) {out : Outcome}
    (hout : grade task r = some out) : out.score =
      .finite (gradeCases task (some groups) (some groups) (rawResult task r.cases r.tmp)).2.1 := by
  obtain ⟨-, hscore, -⟩ := h.outcome hout
  rw [h.scoreScript, Run.casesOutcome, h.firstGroups, h.secondGroups] at hscore
  exact hscore

theorem ownMessages_of_plain {w : Nat → CaseWorld} {tmp : Tmp} (hplain : task.comparison ≠ "special".toList) :
    OwnMessages (rawResult task w tmp) n := by
  intro k raw _ _ hraw
  refine ⟨rawResult_message hraw, fun hhash => ?_⟩
  have hnames : '#' ∉ raw ∨ Names k raw := by
    obtain rfl | rfl | ⟨_, _, s, hstatus⟩ | ⟨out, hjudge⟩ := rawResult_cases hraw
    · exact Or.inr (names_withCase (by decide) (by decide))
    · exact Or.inl (by decide)
    · exact statusVerdict_names hstatus
    · exact Or.inr (judgeOutput_names hplain hjudge)
  obtain ⟨p, -, -, hp⟩ := hnames.resolve_left (not_not_intro hhash)
  exact ⟨p, hp⟩

/-- The second run passes the cases that the first one passes. -/
def PassesMore (task : Task) (r₁ r₂ : Run) : Prop :=
  ∀ k, 1 ≤ k → k ≤ task.countCases →
    rawResult task r₁.cases r₁.tmp k = none → rawResult task r₂.cases r₂.tmp k = none

def ScoreLe (x y : Double) : Prop := ∃ p q, x = .finite p ∧ y = .finite q ∧ p ≤ q

/-- Passing more cases does not lower the score, unless a message without a case takes every group away
in the second run only. -/
theorem grade_mono (task : Task) (groups : List Group) (hmax : 0 ≤ task.maxScore)
    (hscores : ∀ g ∈ groups, 0 ≤ g.score)
    (hpart : groups ≠ [] → Range.Partition (groups.map Group.range) task.countCases)
    (hothers : ∀ g ∈ groups, scoreOf groups (· ≠ g) ≤ task.maxScore)
    (r₁ r₂ : Run) (h₁ : r₁.BuiltIn task groups) (h₂ : r₂.BuiltIn task groups)
    (hown₁ : task.comparison = "special".toList →
      OwnMessages (rawResult task r₁.cases r₁.tmp) task.countCases)
    (hown₂ : task.comparison = "special".toList →
      OwnMessages (rawResult task r₂.cases r₂.tmp) task.countCases)
    (hpassed : PassesMore task r₁ r₂)
    (hanon : AnonymousFailure (rawResult task r₂.cases r₂.tmp) task.countCases →
      AnonymousFailure (rawResult task r₁.cases r₁.tmp) task.countCases)
    (out₁ out₂ : Outcome) (hout₁ : grade task r₁ = some out₁) (hout₂ : grade task r₂ = some out₂) :
    ScoreLe out₁.score out₂.score := by
  have hown : OwnMessages (rawResult task r₁.cases r₁.tmp) task.countCases ∧
      OwnMessages (rawResult task r₂.cases r₂.tmp) task.countCases := by
    by_cases hspecial : task.comparison = "special".toList
    · exact ⟨hown₁ hspecial, hown₂ hspecial⟩
    · exact ⟨ownMessages_of_plain hspecial, ownMessages_of_plain hspecial⟩
  exact ⟨_, _, h₁.score hout₁, h₂.score hout₂,
    gradeCases_mono hmax hscores hpart hown.1 hown.2 hothers hpassed hanon⟩

/-- The groups for 40 and 60 points; the sandbox may leave no stat file for the second case. -/
def twoGroupsRun (named : Nat → Option Nat) (lost : Bool) : Run where
  __ := builtinRun (some twoGroups) (some twoGroups) .absent named
  cases := fun k => { namingRun named k with statFile := if lost ∧ k = 2 then none else some [] }

theorem twoGroupsRun_builtIn (named : Nat → Option Nat) (lost : Bool) :
    (twoGroupsRun named lost).BuiltIn aTask twoGroups where
  prepared := rfl
  builtin := by decide
  judge := rfl
  compiled := ⟨none, rfl⟩
  firstGroups := rfl
  secondGroups := rfl
  scoreScript := rfl

def secondFails (k : Nat) : Option Nat := if k = 2 then some 2 else none

theorem secondFails_score : (grade aTask (twoGroupsRun secondFails false)).map Outcome.score = some (.finite 40) := by
  decide +kernel

/-- From one wrong case to none. -/
theorem grade_mono_accepted : ∃ out₁ out₂, grade aTask (twoGroupsRun secondFails false) = some out₁ ∧
    grade aTask (twoGroupsRun (fun _ => none) false) = some out₂ ∧ ScoreLe out₁.score out₂.score := by
  have hpassed : (grade aTask (twoGroupsRun (fun _ => none) false)).map Outcome.score = some (.finite 100) ∧
      ∀ k ∈ List.range' 1 2, rawResult aTask (twoGroupsRun (fun _ => none) false).cases (fun _ => none) k =
        none := by
    decide +kernel
  have hall : ∀ k, 1 ≤ k → k ≤ aTask.countCases →
      rawResult aTask (twoGroupsRun (fun _ => none) false).cases (fun _ => none) k = none := by
    intro k hpos hle
    exact hpassed.2 k (List.mem_range'_1.mpr ⟨hpos, Nat.lt_succ_of_le hle⟩)
  obtain ⟨out₁, hout₁, -⟩ := Option.map_eq_some_iff.mp secondFails_score
  obtain ⟨out₂, hout₂, -⟩ := Option.map_eq_some_iff.mp hpassed.1
  refine ⟨out₁, out₂, hout₁, hout₂, grade_mono aTask twoGroups (by decide) (by decide)
    (fun _ => twoGroups_chain.partition) (by decide +kernel) _ _ (twoGroupsRun_builtIn _ _)
    (twoGroupsRun_builtIn _ _) (fun h => absurd h (by decide)) (fun h => absurd h (by decide))
    (fun k hpos hle _ => hall k hpos hle) ?_ out₁ out₂ hout₁ hout₂⟩
  rintro ⟨k, raw, hpos, hle, hraw, -⟩
  exact absurd (hraw.symm.trans (hall k hpos hle)) (Option.some_ne_none raw)

/-- From a wrong second case to one without a stat file. -/
theorem grade_not_mono : ¬ ∀ (task : Task) (groups : List Group), 0 ≤ task.maxScore →
    (∀ g ∈ groups, 0 ≤ g.score) →
    (groups ≠ [] → Range.Partition (groups.map Group.range) task.countCases) →
    ∀ r₁ r₂ : Run, r₁.BuiltIn task groups → r₂.BuiltIn task groups → PassesMore task r₁ r₂ →
      ∀ out₁ out₂, grade task r₁ = some out₁ → grade task r₂ = some out₂ →
        ScoreLe out₁.score out₂.score := by
  intro h
  have hlost : (grade aTask (twoGroupsRun secondFails true)).map Outcome.score = some (.finite 0) ∧
      rawResult aTask (twoGroupsRun secondFails true).cases (fun _ => none) 1 = none ∧
      rawResult aTask (twoGroupsRun secondFails false).cases (fun _ => none) 2 ≠ none := by
    decide +kernel
  have hpassed : PassesMore aTask (twoGroupsRun secondFails false) (twoGroupsRun secondFails true) := by
    intro k hpos hle hnone
    have hle : k ≤ 2 := hle
    obtain rfl | rfl : k = 1 ∨ k = 2 := by omega
    · exact hlost.2.1
    · exact absurd hnone hlost.2.2
  obtain ⟨out₁, hout₁, hscore₁⟩ := Option.map_eq_some_iff.mp secondFails_score
  obtain ⟨out₂, hout₂, hscore₂⟩ := Option.map_eq_some_iff.mp hlost.1
  obtain ⟨p, q, hp, hq, hle⟩ := h aTask twoGroups (by decide) (by decide)
    (fun _ => twoGroups_chain.partition) _ _ (twoGroupsRun_builtIn _ _) (twoGroupsRun_builtIn _ _) hpassed
    out₁ out₂ hout₁ hout₂
  rw [hscore₁] at hp
  rw [hscore₂] at hq
  cases hp
  cases hq
  exact absurd hle (by decide)

end Tle.Grade
