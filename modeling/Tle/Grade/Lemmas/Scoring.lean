import Tle.Grade.Loop

/-!
# What the loop has accumulated
-/

namespace Tle.Grade
open Tle.Lib

variable {task : Task} {groups : List Group} {raws : Nat → Option Text} {k n : Nat} {g : Group}

def casesUpTo (n : Nat) : List Nat := List.range' 1 n

theorem casesUpTo_succ (n : Nat) : casesUpTo (n + 1) = casesUpTo n ++ [n + 1] := by
  rw [casesUpTo, List.range'_1_concat, Nat.add_comm 1 n]
  rfl

theorem mem_casesUpTo : k ∈ casesUpTo n ↔ 1 ≤ k ∧ k ≤ n := by
  rw [casesUpTo, List.mem_range'_1]
  omega

/-! ## The accumulators -/

theorem scoreCases_passedCases : (scoreCases task groups raws n).passedCases =
    (casesUpTo n).countP fun k => (raws k).isNone := by
  induction n with
  | zero => rfl
  | succ n ih =>
      rw [scoreCases, casesUpTo_succ, List.countP_append, ← ih]
      cases hraw : raws (n + 1) <;> simp [Scoring.step, hraw]

theorem scoreCases_firstFailure : (scoreCases task groups raws n).firstFailure =
    (casesUpTo n).findSome? raws := by
  induction n with
  | zero => rfl
  | succ n ih =>
      rw [scoreCases, casesUpTo_succ, List.findSome?_append, ← ih]
      cases hraw : raws (n + 1) with
      | none => simp [Scoring.step, hraw]
      | some raw => simp [Scoring.step, hraw]

/-- Some case has marked the group as failed. -/
def groupFailed (raws : Nat → Option Text) (n : Nat) (g : Group) : Bool :=
  (casesUpTo n).any fun k => (raws k).any (marksGroup · g)

theorem zipWith_map_self {α β γ : Type} (f : α → β → γ) (h : α → β) (l : List α) :
    List.zipWith f l (l.map h) = l.map fun a => f a (h a) := by
  induction l with
  | nil => rfl
  | cons a l ih => simp [ih]

theorem scoreCases_failedGroups :
    (scoreCases task groups raws n).failedGroups = groups.map (groupFailed raws n) := by
  induction n with
  | zero => rfl
  | succ n ih =>
      have hsucc : groupFailed raws (n + 1) =
          fun g => groupFailed raws n g || (raws (n + 1)).any (marksGroup · g) := by
        funext g
        simp [groupFailed, casesUpTo_succ]
      rw [hsucc]
      cases hraw : raws (n + 1) with
      | none =>
          rw [scoreCases, hraw]
          simpa [Scoring.step] using ih
      | some raw =>
          rw [scoreCases, hraw]
          simp only [Scoring.step, ih, zipWith_map_self, Option.any_some]

/-! ## The score of the groups -/

theorem foldl_groups (failed : Group → Bool) (total : Rat) :
    (groups.zip (groups.map failed)).foldl
      (fun total (g, failed) => if failed then total else total + g.score) total =
      total + ((groups.filter fun g => !failed g).map Group.score).sum := by
  induction groups generalizing total with
  | nil => simp
  | cons g groups ih =>
      simp only [List.map_cons, List.zip_cons_cons, List.foldl_cons, ih]
      cases hg : failed g
      · simp [hg, Rat.add_assoc]
      · simp [hg]

theorem findSome?_casesUpTo_eq_none : (casesUpTo n).findSome? raws = none ↔
    ∀ k, 1 ≤ k → k ≤ n → raws k = none := by
  simp only [List.findSome?_eq_none_iff, mem_casesUpTo, and_imp]

/-! ## The outcome of the cases -/

section Outcome

variable (first second : Option (List Group))

theorem gradeCases_passed (hall : ∀ k, 1 ≤ k → k ≤ task.countCases → raws k = none) :
    (gradeCases task first second raws).1 = "accepted!".toList ∧
      (gradeCases task first second raws).2.1 = task.maxScore := by
  have hnone : (scoreCases task (gradingGroups first second) raws task.countCases).firstFailure = none := by
    rw [scoreCases_firstFailure, findSome?_casesUpTo_eq_none]
    exact hall
  simp only [gradeCases, finishScore, hnone, and_self]

/-- With a failing case the result is the first failing message and the score the share of the cases
passed, or what the groups earn that no message has marked. -/
theorem gradeCases_failed {raw : Text} (hraw : (casesUpTo task.countCases).findSome? raws = some raw) :
    (gradeCases task first second raws).1 = raw ∧
      (gradeCases task first second raws).2.1 =
        if gradingGroups first second = [] then
          task.maxScore * ((casesUpTo task.countCases).countP fun k => (raws k).isNone) / task.countCases
        else (((gradingGroups first second).filter fun g => !groupFailed raws task.countCases g).map
          Group.score).sum := by
  have hfail : (scoreCases task (gradingGroups first second) raws task.countCases).firstFailure =
      some raw := by
    rw [scoreCases_firstFailure, hraw]
  have hcount : task.countCases ≠ 0 := by
    intro hzero
    rw [hzero] at hraw
    cases hraw
  simp only [gradeCases, finishScore, hfail, hcount, ↓reduceIte, scoreCases_passedCases,
    scoreCases_failedGroups, foldl_groups, Rat.zero_add, true_and]

end Outcome

/-! ## The case a message names -/

/-- The messages of `grade` for case `k`. -/
inductive GradeMessage (k : Nat) : Text → Prop where
  | runScript : GradeMessage k (withCase "internal error:run script failed" k)
  | noStat : GradeMessage k noStat
  | isolateCrashed : GradeMessage k isolateCrashed
  | timeLimit : GradeMessage k (timeLimitExceeded k)
  | serverError : GradeMessage k (withCase "internal server error" k)
  | signal (subexitsig : Int) : GradeMessage k (withCode "signal" subexitsig k)
  | exitcode (subexitcode : Int) : GradeMessage k (withCode "exitcode" subexitcode k)
  | memoryLimit : GradeMessage k (memoryLimitExceeded k)
  | checkScript : GradeMessage k (withCase "internal error:check script failed" k)
  | wrongAnswer : GradeMessage k (wrongAnswer k)
  | juryNotPresent : GradeMessage k "internal error:jury not present".toList
  | juryNotCompiled : GradeMessage k "internal error:failed compiling jury".toList
  | juryFailed : GradeMessage k "internal error:jury failed".toList
  | unsupported (a b : Char) :
      GradeMessage k ("internal error:unsupported verdict ".toList ++ cstr [a, b])

/-- A message that names case `k`, and no other before it. -/
def Names (k : Nat) (raw : Text) : Prop :=
  ∃ p, p ≠ [] ∧ '#' ∉ p ∧ raw = p ++ '#' :: formatUnsigned k

theorem hash_not_mem_formatUnsigned (n : Nat) : '#' ∉ formatUnsigned n := by
  intro h
  exact absurd (isDigit_of_mem_formatUnsigned h) (by decide)

theorem hash_not_mem_formatInt (z : Int) : '#' ∉ formatInt z := by
  cases z with
  | ofNat n => exact hash_not_mem_formatUnsigned n
  | negSucc n =>
      intro h
      rcases List.mem_cons.mp h with heq | hmem
      · cases heq
      · exact hash_not_mem_formatUnsigned (n + 1) hmem

theorem names_withCase {label : String} (hne : label.toList ≠ []) (hlabel : '#' ∉ label.toList) :
    Names k (withCase label k) :=
  ⟨label.toList, hne, hlabel, rfl⟩

theorem names_withCode {label : String} {code : Int} (hlabel : '#' ∉ label.toList) :
    Names k (withCode label code k) := by
  refine ⟨label.toList ++ '(' :: formatInt code ++ [')'], by simp, ?_, by simp [withCode]⟩
  intro h
  simp only [List.mem_append, List.mem_cons, List.not_mem_nil, or_false] at h
  rcases h with (h | h | h) | h
  · exact hlabel h
  · cases h
  · exact hash_not_mem_formatInt code h
  · cases h

theorem cstr_length_le (s : Text) : (cstr s).length ≤ s.length := (List.takeWhile_prefix _).length_le

/-- The two bytes of a jury's verdict, shown in a message of their own. -/
abbrev unsupportedVerdict (a b : Char) : Text := "internal error:unsupported verdict ".toList ++ cstr [a, b]

/-- A message names no case, or its own, or shows a jury's two bytes. -/
theorem GradeMessage.names_or_shows {raw : Text} (h : GradeMessage k raw) :
    '#' ∉ raw ∨ Names k raw ∨ ∃ a b, raw = unsupportedVerdict a b := by
  cases h with
  | runScript => exact Or.inr (Or.inl (names_withCase (by decide) (by decide)))
  | noStat => exact Or.inl (by decide)
  | isolateCrashed => exact Or.inl (by decide)
  | timeLimit => exact Or.inr (Or.inl (names_withCase (by decide) (by decide)))
  | serverError => exact Or.inr (Or.inl (names_withCase (by decide) (by decide)))
  | signal s => exact Or.inr (Or.inl (names_withCode (by decide)))
  | exitcode c => exact Or.inr (Or.inl (names_withCode (by decide)))
  | memoryLimit => exact Or.inr (Or.inl (names_withCase (by decide) (by decide)))
  | checkScript => exact Or.inr (Or.inl (names_withCase (by decide) (by decide)))
  | wrongAnswer => exact Or.inr (Or.inl (names_withCase (by decide) (by decide)))
  | juryNotPresent => exact Or.inl (by decide)
  | juryNotCompiled => exact Or.inl (by decide)
  | juryFailed => exact Or.inl (by decide)
  | unsupported a b => exact Or.inr (Or.inr ⟨a, b, rfl⟩)

theorem GradeMessage.names {raw : Text} (h : GradeMessage k raw) (hhash : '#' ∈ raw)
    (hend : ∃ p, raw = p ++ '#' :: formatUnsigned k) : Names k raw := by
  obtain hno | hnames | ⟨a, b, rfl⟩ := h.names_or_shows
  · exact absurd hhash hno
  · exact hnames
  · obtain ⟨p, hp⟩ := hend
    have hclean : '#' ∉ "internal error:unsupported verdict ".toList := by decide
    refine ⟨p, ?_, ?_, hp⟩
    · rintro rfl
      simp [unsupportedVerdict] at hp
    rcases List.append_eq_append_iff.mp hp with ⟨e, hpe, hshow⟩ | ⟨e, hpe, -⟩
    · -- the two bytes shown leave no room for anything before the `#` and the number
      have hdigits : formatUnsigned k ≠ [] := Nat.toDigits_ne_nil
      have hlen := congrArg List.length hshow
      have hle := cstr_length_le [a, b]
      have hpos := List.length_pos_iff.mpr hdigits
      simp only [List.length_append, List.length_cons, List.length_nil] at hlen hle
      have he : e = [] := List.length_eq_zero_iff.mp (by omega)
      rw [hpe, he, List.append_nil]
      exact hclean
    · intro hmem
      exact hclean (hpe ▸ List.mem_append_left _ hmem)

theorem scanFailedCase_no_hash {raw : Text} (h : '#' ∉ raw) : scanFailedCase raw = 0 := by
  have hdrop : raw.dropWhile (· ≠ '#') = [] := by
    rw [List.dropWhile_eq_nil_iff]
    intro c hc
    have hne : c ≠ '#' := fun heq => h (heq ▸ hc)
    simpa using hne
  unfold scanFailedCase
  rw [hdrop]
  split
  · rename_i heq
    cases heq
  · rfl

theorem scanFailedCase_names {raw : Text} (hk : k < 2 ^ 32) (h : Names k raw) :
    scanFailedCase raw = BitVec.ofNat 32 k := by
  obtain ⟨p, hne, hp, rfl⟩ := h
  have hall : ∀ c ∈ p, (decide (c ≠ '#')) = true := by
    intro c hc
    have : c ≠ '#' := fun heq => hp (heq ▸ hc)
    simpa using this
  have htake : (p ++ '#' :: formatUnsigned k).takeWhile (· ≠ '#') = p := by
    rw [List.takeWhile_append_of_pos hall]
    simp
  have hdrop : (p ++ '#' :: formatUnsigned k).dropWhile (· ≠ '#') = '#' :: formatUnsigned k := by
    rw [List.dropWhile_append_of_pos hall]
    simp
  have hscan : scanU (formatUnsigned k) = some k := by
    have h := @scanU_formatUnsigned k hk [] (by simp)
    rwa [List.append_nil] at h
  obtain ⟨c, cs, rfl⟩ := List.exists_cons_of_ne_nil hne
  unfold scanFailedCase
  rw [htake, hdrop]
  simp [hscan]

/-! ## The groups marked -/

theorem ofNat_ne_zero (hpos : 1 ≤ k) (hlt : k < 2 ^ 32) : BitVec.ofNat 32 k ≠ 0 := by
  intro h
  have hnat := congrArg BitVec.toNat h
  rw [BitVec.toNat_ofNat, Nat.mod_eq_of_lt hlt] at hnat
  have hzero : (0 : BitVec 32).toNat = 0 := rfl
  omega

theorem last_toNat (hpos : 0 < g.range.size) (hend : g.range.start + g.range.size ≤ 2 ^ 32) :
    g.last.toNat = g.range.start + g.range.size - 1 := by
  simp only [Group.range] at hpos hend ⊢
  have hone : (1 : BitVec 32).toNat = 1 := rfl
  simp only [Group.last, BitVec.toNat_sub, BitVec.toNat_add, hone]
  omega

theorem marksGroup_no_hash {raw : Text} (h : '#' ∉ raw) : marksGroup raw g = true := by
  simp [marksGroup, scanFailedCase_no_hash h]

/-- A message that names its case marks the groups that contain the case. -/
theorem marksGroup_names {raw : Text} (hk : 1 ≤ k) (hlt : k < 2 ^ 32) (h : Names k raw)
    (hpos : 0 < g.range.size) (hend : g.range.start + g.range.size ≤ 2 ^ 32) :
    marksGroup raw g = true ↔ g.range.Has k := by
  have hmod : k % 2 ^ 32 = k := Nat.mod_eq_of_lt hlt
  have hne : BitVec.ofNat 32 k ≠ 0 := ofNat_ne_zero hk hlt
  rw [marksGroup, scanFailedCase_names hlt h]
  simp only [hne, decide_false, Bool.false_or, Bool.and_eq_true, decide_eq_true_eq, BitVec.le_def,
    BitVec.toNat_ofNat, hmod, last_toNat hpos hend, Range.Has, Group.range] at hpos ⊢
  omega

/-- Every raw result of the cases is one of the messages, and a `#` in it belongs to its own case. -/
def OwnMessages (raws : Nat → Option Text) (n : Nat) : Prop :=
  ∀ k raw, 1 ≤ k → k ≤ n → raws k = some raw →
    GradeMessage k raw ∧ ('#' ∈ raw → ∃ p, raw = p ++ '#' :: formatUnsigned k)

/-- Some failing message names no case. -/
def AnonymousFailure (raws : Nat → Option Text) (n : Nat) : Prop :=
  ∃ k raw, 1 ≤ k ∧ k ≤ n ∧ raws k = some raw ∧ '#' ∉ raw

theorem groupFailed_iff : groupFailed raws n g = true ↔
    ∃ k raw, (1 ≤ k ∧ k ≤ n) ∧ raws k = some raw ∧ marksGroup raw g = true := by
  simp only [groupFailed, List.any_eq_true, mem_casesUpTo, Option.any_eq_true]
  constructor
  · rintro ⟨k, hk, raw, hraw, hmark⟩
    exact ⟨k, raw, hk, hraw, hmark⟩
  · rintro ⟨k, raw, hk, hraw, hmark⟩
    exact ⟨k, hk, raw, hraw, hmark⟩

theorem groupFailed_of_anonymous (h : AnonymousFailure raws n) : groupFailed raws n g = true := by
  obtain ⟨k, raw, hpos, hle, hraw, hhash⟩ := h
  exact groupFailed_iff.mpr ⟨k, raw, ⟨hpos, hle⟩, hraw, marksGroup_no_hash hhash⟩

theorem groupFailed_iff_case (hn : n < 2 ^ 32 - 1) (hown : OwnMessages raws n)
    (hnamed : ¬ AnonymousFailure raws n) (hpart : Range.Partition (groups.map Group.range) n)
    (hg : g ∈ groups) :
    groupFailed raws n g = true ↔ ∃ k, g.range.Has k ∧ raws k ≠ none := by
  have hmem : g.range ∈ groups.map Group.range := List.mem_map_of_mem hg
  have hpos := hpart.nonempty _ hmem
  have hlast := (hpart.inside _ hmem (g.range.start + g.range.size - 1) (by omega)).2
  rw [groupFailed_iff]
  have hnames : ∀ k raw, 1 ≤ k → k ≤ n → raws k = some raw → Names k raw := by
    intro k raw hk hle hraw
    obtain ⟨hmsg, hend⟩ := hown k raw hk hle hraw
    have hhash : '#' ∈ raw := by
      by_contra hno
      exact hnamed ⟨k, raw, hk, hle, hraw, hno⟩
    exact hmsg.names hhash (hend hhash)
  constructor
  · rintro ⟨k, raw, ⟨hk, hle⟩, hraw, hmark⟩
    refine ⟨k, ?_, by simp [hraw]⟩
    exact (marksGroup_names hk (by omega) (hnames k raw hk hle hraw) hpos (by omega)).mp hmark
  · rintro ⟨k, hhas, hfail⟩
    obtain ⟨raw, hraw⟩ := Option.ne_none_iff_exists'.mp hfail
    obtain ⟨hk, hle⟩ := hpart.inside _ hmem k hhas
    refine ⟨k, raw, ⟨hk, hle⟩, hraw, ?_⟩
    exact (marksGroup_names hk (by omega) (hnames k raw hk hle hraw) hpos (by omega)).mpr hhas

/-! ## The messages of the cases -/

theorem statusVerdict_message {maxTime maxMem : Nat} {s : Stat} {raw : Text}
    (h : statusVerdict task k maxTime maxMem s = some raw) : GradeMessage k raw := by
  unfold statusVerdict at h
  split_ifs at h <;> cases h
  · exact .isolateCrashed
  · exact .timeLimit
  · exact .signal _
  · exact .exitcode _
  · exact .memoryLimit

theorem judgeOutput_message {w : CaseWorld} {out : Option Text} {raw : Text}
    (h : judgeOutput task w k out = some raw) : GradeMessage k raw := by
  simp only [judgeOutput, askJury] at h
  split_ifs at h
  · cases h; exact .checkScript
  · cases h; exact .wrongAnswer
  · cases h; exact .juryNotPresent
  · cases h; exact .juryNotCompiled
  · cases h; exact .juryFailed
  · unfold juryVerdict at h
    split at h
    · cases h
    · cases h; exact .wrongAnswer
    · cases h; exact .unsupported _ _
  · cases h; exact .wrongAnswer

/-- Where the raw result of a failing case comes from. -/
theorem gradeCase_cases {w : CaseWorld} {c : Carry} {raw : Text} (h : (gradeCase task w k c).2 = some raw) :
    raw = withCase "internal error:run script failed" k ∨ raw = noStat ∨
      (∃ maxTime maxMem s, statusVerdict task k maxTime maxMem s = some raw) ∨
      ∃ out, judgeOutput task w k out = some raw := by
  simp only [gradeCase] at h
  split at h
  · cases h; exact Or.inl rfl
  split at h
  · cases h; exact Or.inr (Or.inl rfl)
  simp only at h
  split at h
  · rename_i heq
    cases h
    exact Or.inr (Or.inr (Or.inl ⟨_, _, _, heq⟩))
  · exact Or.inr (Or.inr (Or.inr ⟨_, h⟩))

theorem rawResult_cases {w : Nat → CaseWorld} {tmp : Tmp} {raw : Text}
    (h : rawResult task w tmp k = some raw) :
    raw = withCase "internal error:run script failed" k ∨ raw = noStat ∨
      (∃ maxTime maxMem s, statusVerdict task k maxTime maxMem s = some raw) ∨
      ∃ out, judgeOutput task (w k) k out = some raw :=
  gradeCase_cases h

/-- The raw results of a run are messages of `grade`. -/
theorem rawResult_message {w : Nat → CaseWorld} {tmp : Tmp} {raw : Text}
    (h : rawResult task w tmp k = some raw) : GradeMessage k raw := by
  obtain rfl | rfl | ⟨_, _, _, hstatus⟩ | ⟨out, hjudge⟩ := rawResult_cases h
  · exact .runScript
  · exact .noStat
  · exact statusVerdict_message hstatus
  · exact judgeOutput_message hjudge

end Tle.Grade
