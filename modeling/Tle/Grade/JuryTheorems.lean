import Tle.Grade.Lemmas.Named
import Tle.Grade.ScoreTheorems

/-!
# What the output of a jury decides
-/

namespace Tle.Grade
open Tle.Lib

variable {task : Task} {groups : List Group} {w : CaseWorld} {c : Carry} {k d : Nat} {raw : Text} {g : Group}

/-- The case of a `special` task gets as far as the run of its jury. -/
structure RunsJury (task : Task) (w : CaseWorld) (k : Nat) (c : Carry) : Prop where
  reaches : ReachesComparison task w k c
  special : task.comparison = "special".toList
  unchecked : runTaskCheckScript (w.checkScript (judgedFile w k c.tmp)) = 1
  present : w.juryPresent = true ∨ w.juryCodePresent = true ∧ w.juryCompiles = true

/-- The run of the jury in a case. -/
def juryRun (w : CaseWorld) (k : Nat) (c : Carry) : JuryRun := w.jury (judgedFile w k c.tmp)

theorem RunsJury.read (h : RunsJury task w k c) (hexit : (juryRun w k c).exitedZero = true) :
    JuryRead task w (judgedFile w k c.tmp) :=
  ⟨h.unchecked, h.special, h.present, hexit⟩

theorem RunsJury.gradeCase_eq (h : RunsJury task w k c) : (gradeCase task w k c).2 =
    if (juryRun w k c).exitedZero then juryVerdict k (verdictBytes w (juryRun w k c))
    else some "internal error:jury failed".toList := by
  obtain ⟨hrun, file, hstat, hstatus⟩ := h.reaches
  rw [gradeCase_stat hrun hstat, hstatus, Option.none_or]
  cases hexit : (juryRun w k c).exitedZero with
  | true => exact judgeOutput_jury (h.read hexit)
  | false =>
      have hpresent : (!w.juryPresent && !w.juryCodePresent) = false := by
        rcases h.present with hjury | ⟨hcode, -⟩
        · simp [hjury]
        · simp [hcode]
      have hcompiled : (!w.juryPresent && !w.juryCompiles) = false := by
        rcases h.present with hjury | ⟨-, hcompiles⟩
        · simp [hjury]
        · simp [hcompiles]
      have hfailed : (w.jury (judgedFile w k c.tmp)).exitedZero = false := hexit
      simp [judgeOutput, h.unchecked, h.special, askJury, hpresent, hcompiled, hfailed]

/-! ## The verdict of a special judge -/

/-- The result of the case follows from the exit status and the output of this run of the jury. -/
structure DecidedByRun (k : Nat) (run : JuryRun) (raw : Option Text) : Prop where
  passes : raw = none ↔ run.exitedZero = true ∧ "ok".toList <+: run.written
  wrong : raw = some (wrongAnswer k) ↔ run.exitedZero = true ∧ "wa".toList <+: run.written
  internal : (∃ text, raw = some ("internal error:".toList ++ text)) ↔
    ¬(run.exitedZero = true ∧ ("ok".toList <+: run.written ∨ "wa".toList <+: run.written))

/-- The jury writes less than two bytes, and `verdict` holds the rest of a verdict. -/
def CompletedByStale (before : Char × Char) (run : JuryRun) : Prop :=
  run.exitedZero = true ∧ run.written.length < 2 ∧
    (run.written ++ [before.1, before.2].drop run.written.length = "ok".toList ∨
      run.written ++ [before.1, before.2].drop run.written.length = "wa".toList)

theorem juryVerdict_cases (k : Nat) (p : Char × Char) : juryVerdict k p = none ∨
    juryVerdict k p = some (wrongAnswer k) ∨
      ∃ text, juryVerdict k p = some ("internal error:".toList ++ text) := by
  unfold juryVerdict
  split
  · exact Or.inl rfl
  · exact Or.inr (Or.inl rfl)
  · have hsplit : "internal error:unsupported verdict ".toList =
        "internal error:".toList ++ "unsupported verdict ".toList := by decide
    exact Or.inr (Or.inr ⟨_, by rw [hsplit, List.append_assoc]⟩)

theorem juryVerdict_eq_none {p : Char × Char} : juryVerdict k p = none ↔ p.1 = 'o' ∧ p.2 = 'k' := by
  unfold juryVerdict
  split
  · exact iff_of_true rfl ⟨rfl, rfl⟩
  · exact iff_of_false (by rintro ⟨⟩) (by rintro ⟨⟨⟩, -⟩)
  · rename_i hok _
    exact iff_of_false (by rintro ⟨⟩) (fun h => hok h.1 h.2)

theorem juryVerdict_eq_wrong {p : Char × Char} :
    juryVerdict k p = some (wrongAnswer k) ↔ p.1 = 'w' ∧ p.2 = 'a' := by
  unfold juryVerdict
  split
  · exact iff_of_false (by rintro ⟨⟩) (by rintro ⟨⟨⟩, -⟩)
  · exact iff_of_true rfl ⟨rfl, rfl⟩
  · rename_i hwa
    refine iff_of_false (fun h => ?_) (fun h => hwa h.1 h.2)
    cases h

theorem juryVerdict_internal {p : Char × Char} :
    (∃ text, juryVerdict k p = some ("internal error:".toList ++ text)) ↔
      ¬(p.1 = 'o' ∧ p.2 = 'k') ∧ ¬(p.1 = 'w' ∧ p.2 = 'a') := by
  rw [← juryVerdict_eq_none (k := k), ← juryVerdict_eq_wrong (k := k)]
  constructor
  · rintro ⟨text, htext⟩
    rw [htext]
    exact ⟨by rintro ⟨⟩, by rintro ⟨⟩⟩
  · rintro ⟨hpass, hwrong⟩
    exact ((juryVerdict_cases k p).resolve_left hpass).resolve_left hwrong

/-- The two bytes of a verdict have been written, or what is missing of them was in the buffer. -/
theorem verdictBytes_eq_iff {run : JuryRun} {x y : Char} :
    (verdictBytes w run).1 = x ∧ (verdictBytes w run).2 = y ↔ [x, y] <+: run.written ∨
      run.written.length < 2 ∧
        run.written ++ [w.verdictBefore.1, w.verdictBefore.2].drop run.written.length = [x, y] := by
  unfold verdictBytes
  match run.written with
  | [] => simp
  | [p] => simp
  | p :: q :: rest => simp [eq_comm]

theorem decidedByRun_iff (k : Nat) (w : CaseWorld) (run : JuryRun) :
    DecidedByRun k run (if run.exitedZero then juryVerdict k (verdictBytes w run)
      else some "internal error:jury failed".toList) ↔ ¬CompletedByStale w.verdictBefore run := by
  cases hexit : run.exitedZero with
  | false =>
      refine iff_of_true ⟨?_, ?_, ?_⟩ (fun hstale => ?_)
      · exact iff_of_false (by rintro ⟨⟩) (fun h => by simp [hexit] at h)
      · refine iff_of_false (fun h => ?_) (fun h => by simp [hexit] at h)
        cases h
      · exact iff_of_true ⟨_, rfl⟩ (fun h => by simp [hexit] at h)
      · rw [hstale.1] at hexit
        cases hexit
  | true =>
      have hok := @verdictBytes_eq_iff w run 'o' 'k'
      have hwa := @verdictBytes_eq_iff w run 'w' 'a'
      rw [if_pos rfl]
      constructor
      · rintro ⟨hpasses, hwrong, -⟩ ⟨-, hshort, hstale⟩
        have hunwritten : ∀ x y : Char, ¬[x, y] <+: run.written := fun x y h =>
          absurd h.length_le (by simpa using hshort)
        rcases hstale with hstale | hstale
        · rw [juryVerdict_eq_none] at hpasses
          exact hunwritten 'o' 'k' (hpasses.mp (hok.mpr (Or.inr ⟨hshort, hstale⟩))).2
        · rw [juryVerdict_eq_wrong] at hwrong
          exact hunwritten 'w' 'a' (hwrong.mp (hwa.mpr (Or.inr ⟨hshort, hstale⟩))).2
      · intro hfresh
        have hwritten : ((verdictBytes w run).1 = 'o' ∧ (verdictBytes w run).2 = 'k' ↔
              "ok".toList <+: run.written) ∧
            ((verdictBytes w run).1 = 'w' ∧ (verdictBytes w run).2 = 'a' ↔ "wa".toList <+: run.written) :=
          ⟨hok.trans (or_iff_left fun h => hfresh ⟨hexit, h.1, Or.inl h.2⟩),
            hwa.trans (or_iff_left fun h => hfresh ⟨hexit, h.1, Or.inr h.2⟩)⟩
        refine ⟨?_, ?_, ?_⟩
        · rw [hexit, juryVerdict_eq_none, hwritten.1]
          simp
        · rw [hexit, juryVerdict_eq_wrong, hwritten.2]
          simp
        · rw [hexit, juryVerdict_internal, hwritten.1, hwritten.2]
          simp

/-- The result of the case follows from this run of the jury, unless what the jury has not written is
taken from the buffer. -/
theorem jury_decides_iff (task : Task) (w : CaseWorld) (k : Nat) (c : Carry) (h : RunsJury task w k c) :
    DecidedByRun k (juryRun w k c) (gradeCase task w k c).2 ↔
      ¬CompletedByStale w.verdictBefore (juryRun w k c) := by
  rw [h.gradeCase_eq]
  exact decidedByRun_iff k w (juryRun w k c)

/-! ### Runs of a jury -/

def specialTask : Task := { aTask with comparison := "special".toList }

/-- The jury exits with 0 and writes these bytes. -/
def juryWrites (written : String) (before : Char × Char) : CaseWorld :=
  { aCase "" (.regular "42".toList) with
    juryPresent := true
    jury := fun _ => ⟨true, written.toList⟩
    verdictBefore := before }

theorem runsJury_juryWrites (written : String) (before : Char × Char) (k : Nat) :
    RunsJury specialTask (juryWrites written before) k atStart where
  reaches := ⟨Int.not_lt.mpr Int.one_nonneg, [], rfl, statusVerdict_passed specialTask k 0⟩
  special := rfl
  unchecked := rfl
  present := Or.inl rfl

theorem jury_decides_accepting : DecidedByRun 1 (juryRun (juryWrites "ok\n" ('\x00', '\x00')) 1 atStart)
    (gradeCase specialTask (juryWrites "ok\n" ('\x00', '\x00')) 1 atStart).2 := by
  refine (jury_decides_iff specialTask _ 1 atStart (runsJury_juryWrites _ _ 1)).mpr ?_
  rintro ⟨-, hshort, -⟩
  exact absurd hshort (by decide)

/-- A jury that writes nothing repeats the verdict that is in the buffer. -/
theorem not_jury_decides : ¬∀ (task : Task) (w : CaseWorld) (k : Nat) (c : Carry), RunsJury task w k c →
    DecidedByRun k (juryRun w k c) (gradeCase task w k c).2 := by
  intro h
  have hdecided := h specialTask (juryWrites "" ('o', 'k')) 1 atStart (runsJury_juryWrites _ _ 1)
  have hpasses : (gradeCase specialTask (juryWrites "" ('o', 'k')) 1 atStart).2 = none := by
    decide +kernel
  exact absurd (hdecided.passes.mp hpasses).2 (by decide)

/-! ## The group of a failing case -/

/-- The iteration of case `k` with this message marks every group that has the case; a group that does not
have it is marked only together with all groups. -/
structure FailsOwnGroup (task : Task) (groups : List Group) (k : Nat) (raw : Text) : Prop where
  own : ∀ (s : Scoring) (i : Nat) (g : Group), s.failedGroups.length = groups.length →
    groups[i]? = some g → g.covers k = true →
      (s.step task groups k (some raw)).failedGroups[i]? = some true
  others : ∀ (s : Scoring) (i : Nat) (g : Group), s.failedGroups.length = groups.length →
    groups[i]? = some g → g.covers k = false → s.failedGroups[i]? = some false →
      (s.step task groups k (some raw)).failedGroups[i]? = some true →
        ∀ failed ∈ (s.step task groups k (some raw)).failedGroups, failed = true

theorem step_failedGroups (s : Scoring) {i : Nat} {failed : Bool} (hg : groups[i]? = some g)
    (hs : s.failedGroups[i]? = some failed) :
    (s.step task groups k (some raw)).failedGroups[i]? = some (failed || marksGroup raw g) := by
  simp [Scoring.step, List.getElem?_zipWith, hg, hs]

theorem init_failedGroups {i : Nat} (hg : groups[i]? = some g) :
    (Scoring.init groups).failedGroups[i]? = some false := by
  simp only [Scoring.init, List.getElem?_map, hg, Option.map_some]

/-- It is enough to look at what the message marks. -/
theorem failsOwnGroup_iff_marks : FailsOwnGroup task groups k raw ↔
    (∀ g ∈ groups, g.covers k = true → marksGroup raw g = true) ∧
      ((∃ g ∈ groups, g.covers k = false ∧ marksGroup raw g = true) →
        ∀ g ∈ groups, marksGroup raw g = true) := by
  have hlength : (Scoring.init groups).failedGroups.length = groups.length := by simp [Scoring.init]
  constructor
  · rintro ⟨hown, hothers⟩
    have hmark : ∀ {i : Nat} {g}, groups[i]? = some g →
        ((Scoring.init groups).step task groups k (some raw)).failedGroups[i]? = some (marksGroup raw g) :=
      fun hg => by rw [step_failedGroups _ hg (init_failedGroups hg), Bool.false_or]
    constructor
    · intro g hg hk
      obtain ⟨i, hi⟩ := List.getElem?_of_mem hg
      have hmarked := hown (Scoring.init groups) i g hlength hi hk
      rw [hmark hi] at hmarked
      exact Option.some.inj hmarked
    · rintro ⟨g, hg, hk, hmarks⟩ g' hg'
      obtain ⟨i, hi⟩ := List.getElem?_of_mem hg
      obtain ⟨i', hi'⟩ := List.getElem?_of_mem hg'
      have hall := hothers (Scoring.init groups) i g hlength hi hk (init_failedGroups hi)
        (by rw [hmark hi, hmarks])
      exact hall _ (List.mem_of_getElem? (hmark hi'))
  · rintro ⟨hown, hothers⟩
    have hbefore : ∀ {s : Scoring} {i : Nat} {g}, s.failedGroups.length = groups.length → groups[i]? = some g →
        ∃ failed, s.failedGroups[i]? = some failed := by
      intro s i g hs hg
      have hlt : i < s.failedGroups.length := hs ▸ (List.getElem?_eq_some_iff.mp hg).1
      exact ⟨s.failedGroups[i], List.getElem?_eq_getElem hlt⟩
    constructor
    · intro s i g hs hg hk
      obtain ⟨failed, hfailed⟩ := hbefore hs hg
      rw [step_failedGroups s hg hfailed, hown g (List.mem_of_getElem? hg) hk, Bool.or_true]
    · intro s i g hs hg hk hclean hmarked failed hfailed
      rw [step_failedGroups s hg hclean, Bool.false_or, Option.some.injEq] at hmarked
      have hall := hothers ⟨g, List.mem_of_getElem? hg, hk, hmarked⟩
      obtain ⟨i', hi'⟩ := List.getElem?_of_mem hfailed
      have hlt : i' < groups.length := by
        have hstep := (List.getElem?_eq_some_iff.mp hi').1
        simp only [Scoring.step, List.length_zipWith] at hstep
        omega
      have hg' := List.getElem?_eq_getElem hlt
      obtain ⟨failed', hfailed'⟩ := hbefore hs hg'
      rw [step_failedGroups s hg' hfailed', hall _ (List.mem_of_getElem? hg'), Bool.or_true] at hi'
      exact (Option.some.inj hi').symm

/-- The case is judged by its jury, whose two bytes are a `#` and the digit `d`. -/
structure ShowsNumber (task : Task) (w : CaseWorld) (k : Nat) (c : Carry) (d : Nat) : Prop where
  runs : RunsJury task w k c
  exits : (juryRun w k c).exitedZero = true
  bytes : verdictBytes w (juryRun w k c) = ('#', d.digitChar)
  pos : 1 ≤ d
  le : d ≤ 9

/-- A group has the case `k` and not the case `d`, or one has `d` and not `k` and there is a group without
`d`. -/
def Misdirects (groups : List Group) (k d : Nat) : Prop :=
  (∃ g ∈ groups, g.covers k = true ∧ g.covers d = false) ∨
    (∃ g ∈ groups, g.covers k = false ∧ g.covers d = true) ∧ ∃ g ∈ groups, g.covers d = false

/-- The message names the case `d`, and its groups are marked. -/
theorem failsOwnGroup_iff_not_misdirects (hpos : 1 ≤ d) (hlt : d < 2 ^ 32)
    (hscan : scanFailedCase raw = BitVec.ofNat 32 d) :
    FailsOwnGroup task groups k raw ↔ ¬Misdirects groups k d := by
  have hmarks : ∀ g, marksGroup raw g = g.covers d := by
    intro g
    have hzero : decide (BitVec.ofNat 32 d = 0) = false := decide_eq_false (ofNat_ne_zero hpos hlt)
    rw [marksGroup, hscan, hzero, Bool.false_or]
    rfl
  simp only [failsOwnGroup_iff_marks, hmarks, Misdirects, not_or, not_and, not_exists, Bool.not_eq_false]

theorem failsOwnGroup_of_names (hpos : 1 ≤ k) (hlt : k < 2 ^ 32) (h : '#' ∉ raw ∨ Names k raw) :
    FailsOwnGroup task groups k raw := by
  rcases h with hno | hnames
  · have hall : ∀ g ∈ groups, marksGroup raw g = true := fun g _ => marksGroup_no_hash hno
    exact failsOwnGroup_iff_marks.mpr ⟨fun g hg _ => hall g hg, fun _ => hall⟩
  · refine (failsOwnGroup_iff_not_misdirects hpos hlt (scanFailedCase_names hlt hnames)).mpr ?_
    rintro (⟨g, -, hk, hk'⟩ | ⟨⟨g, -, hk, hk'⟩, -⟩)
    · rw [hk] at hk'
      cases hk'
    · rw [hk] at hk'
      cases hk'

/-! ### The messages of a case -/

theorem ReachesComparison.gradeCase_eq (h : ReachesComparison task w k c) :
    (gradeCase task w k c).2 = judgeOutput task w k (judgedFile w k c.tmp) := by
  obtain ⟨hrun, file, hstat, hstatus⟩ := h
  rw [gradeCase_stat hrun hstat, hstatus, Option.none_or]

theorem names_of_not_reaches (h : ¬ReachesComparison task w k c) (hraw : (gradeCase task w k c).2 = some raw) :
    '#' ∉ raw ∨ Names k raw := by
  by_cases hrun : runTaskRunScript w.runScript < 0
  · rw [gradeCase_run_failed hrun] at hraw
    cases hraw
    exact Or.inr (names_withCase (by decide) (by decide))
  cases hstat : w.statFile with
  | none =>
      rw [gradeCase_no_stat hrun hstat] at hraw
      cases hraw
      exact Or.inl (by decide)
  | some file =>
      rw [gradeCase_stat hrun hstat] at hraw
      cases hstatus : statusVerdict task k (max c.maxTime (readStat file).caseTime)
          (max c.maxMem (readStat file).caseMem) (readStat file) with
      | none => exact absurd ⟨hrun, file, hstat, hstatus⟩ h
      | some status =>
          rw [hstatus, Option.some_or, Option.some.injEq] at hraw
          exact statusVerdict_names (hraw ▸ hstatus)

/-- Only a jury that has been read can have its bytes in the message. -/
theorem judgeOutput_names_or_shows {out : Option Text} (h : judgeOutput task w k out = some raw) :
    '#' ∉ raw ∨ Names k raw ∨ JuryRead task w out ∧
      raw = unsupportedVerdict (verdictBytes w (w.jury out)).1 (verdictBytes w (w.jury out)).2 := by
  have hcheck : '#' ∉ "internal error:check script failed".toList := by decide
  have hwrong : Names k (wrongAnswer k) := names_withCase (by decide) (by decide)
  simp only [judgeOutput, askJury] at h
  split_ifs at h with hscript hwa hspecial habsent hcompiled hexit hcompare
  · cases h
    exact Or.inr (Or.inl (names_withCase (by decide) hcheck))
  · cases h
    exact Or.inr (Or.inl hwrong)
  · cases h
    exact Or.inl (by decide)
  · cases h
    exact Or.inl (by decide)
  · cases h
    exact Or.inl (by decide)
  · have hread : JuryRead task w out := by
      refine ⟨hspecial.1, hspecial.2, ?_, by simpa using hexit⟩
      cases hpresent : w.juryPresent with
      | true => exact Or.inl rfl
      | false =>
          rw [hpresent] at habsent hcompiled
          exact Or.inr ⟨by simpa using habsent, by simpa using hcompiled⟩
    unfold juryVerdict at h
    split at h
    · cases h
    · cases h
      exact Or.inr (Or.inl hwrong)
    · rename_i a b _ _ hbytes
      cases h
      exact Or.inr (Or.inr ⟨hread, by rw [hbytes]⟩)
  · cases h
    exact Or.inr (Or.inl hwrong)

/-- Whatever fails in a case, its own groups are marked, unless the jury prints a `#` and the number of a case
in other groups. -/
theorem failsOwnGroup_iff (task : Task) (groups : List Group) (w : CaseWorld) (k : Nat) (c : Carry)
    (hpos : 1 ≤ k) (hle : k ≤ task.countCases) :
    (∀ raw, (gradeCase task w k c).2 = some raw → FailsOwnGroup task groups k raw) ↔
      ¬∃ d, ShowsNumber task w k c d ∧ Misdirects groups k d := by
  have hlt : k < 2 ^ 32 := by
    have := task.countCases_lt
    omega
  constructor
  · rintro h ⟨d, hshows, hmisdirects⟩
    have hraw : (gradeCase task w k c).2 = some (unsupportedVerdict '#' d.digitChar) := by
      rw [hshows.runs.gradeCase_eq, if_pos hshows.exits, hshows.bytes]
      rfl
    have hscan := scanFailedCase_digit hshows.pos hshows.le
    have hsmall : d < 2 ^ 32 := Nat.lt_of_le_of_lt hshows.le (by decide)
    exact (failsOwnGroup_iff_not_misdirects hshows.pos hsmall hscan).mp (h _ hraw) hmisdirects
  · intro hnot raw hraw
    by_cases hreaches : ReachesComparison task w k c
    · rw [hreaches.gradeCase_eq] at hraw
      rcases judgeOutput_names_or_shows hraw with hno | hnames | ⟨⟨hcheck, hspecial, hpresent, hexit⟩, rfl⟩
      · exact failsOwnGroup_of_names hpos hlt (Or.inl hno)
      · exact failsOwnGroup_of_names hpos hlt (Or.inr hnames)
      · rcases scanFailedCase_unsupported (verdictBytes w (juryRun w k c)).1
            (verdictBytes w (juryRun w k c)).2 with hzero | ⟨d, hd, hd9, ha, hb, hscan⟩
        · have hall : ∀ g, marksGroup (unsupportedVerdict (verdictBytes w (juryRun w k c)).1
              (verdictBytes w (juryRun w k c)).2) g = true := fun g => by simp [marksGroup, hzero]
          exact failsOwnGroup_iff_marks.mpr ⟨fun g _ _ => hall g, fun _ g _ => hall g⟩
        · have hsmall : d < 2 ^ 32 := Nat.lt_of_le_of_lt hd9 (by decide)
          apply (failsOwnGroup_iff_not_misdirects hd hsmall hscan).mpr
          intro hmisdirects
          exact hnot ⟨d, ⟨⟨hreaches, hspecial, hcheck, hpresent⟩, hexit, Prod.ext ha hb, hd, hd9⟩, hmisdirects⟩
    · exact failsOwnGroup_of_names hpos hlt (names_of_not_reaches hreaches hraw)

theorem failsOwnGroup_wrong : FailsOwnGroup specialTask twoGroups 2 (wrongAnswer 2) := by
  have hraw : (gradeCase specialTask (juryWrites "wa" (' ', ' ')) 2 atStart).2 = some (wrongAnswer 2) := by
    rw [(runsJury_juryWrites "wa" (' ', ' ') 2).gradeCase_eq]
    decide
  refine (failsOwnGroup_iff specialTask twoGroups _ 2 atStart (by decide) (by decide)).mpr ?_ _ hraw
  rintro ⟨d, hshows, -⟩
  have hfirst : (verdictBytes (juryWrites "wa" (' ', ' ')) (juryRun (juryWrites "wa" (' ', ' ')) 2 atStart)).1 =
      '#' := congrArg Prod.fst hshows.bytes
  exact absurd hfirst (by decide)

/-- In the first case the jury prints `#2`, and the group of the second case is marked. -/
theorem not_failsOwnGroup : ¬∀ (task : Task) (groups : List Group) (w : CaseWorld) (k : Nat) (c : Carry),
    Range.Partition (groups.map Group.range) task.countCases → 1 ≤ k → k ≤ task.countCases →
      ∀ raw, (gradeCase task w k c).2 = some raw → FailsOwnGroup task groups k raw := by
  intro h
  have hraw : (gradeCase specialTask (juryWrites "#2" (' ', ' ')) 1 atStart).2 =
      some (unsupportedVerdict '#' '2') := by
    rw [(runsJury_juryWrites "#2" (' ', ' ') 1).gradeCase_eq]
    decide
  have hfails := h specialTask twoGroups (juryWrites "#2" (' ', ' ')) 1 atStart twoGroups_chain.partition
    (by decide) (by decide) _ hraw
  have hmarked := hfails.own (Scoring.init twoGroups) 0 ⟨1, 1, 40⟩ rfl rfl (by decide)
  exact absurd hmarked (by decide)

end Tle.Grade
