import Tle.Grade.Lemmas.Brackets
import Tle.Queue.Verdict

/-!
# The marker of a case and the stored verdict

The grader classifies a message by its prefix, the queue by its `sscanf` patterns.
-/

namespace Tle.Grade
open Tle.Lib Tle.Queue

variable {task : Task} {groups : List Group} {raws : Nat → Option Text} {k n : Nat}

/-- The verdict that a marker stands for. -/
def markerVerdict : Char → Option Text
  | 'A' => some "accepted".toList
  | 'W' => some "wrong_answer".toList
  | 'T' => some "time_limit".toList
  | 'M' => some "memory_limit".toList
  | 'R' => some "runtime_error".toList
  | 'E' => some "internal_error".toList
  | _ => none

/-! ## One message -/

/-- What both classifiers make of a message. -/
structure Classified (raw : Text) (marker : Char) : Prop where
  marker_eq : subtaskCaseMarker (some raw) = marker
  not_accepted : marker ≠ 'A'
  verdict : markerVerdict marker = some (parseVerdict raw).1

theorem scanD_formatUnsigned (n : Nat) : scanD (formatUnsigned n) = some (toInt32 (clampLong n)) := by
  have hscan := @scanInt_formatUnsigned n [] (by simp)
  rw [List.append_nil] at hscan
  rw [scanD, hscan, Option.map_some]

theorem scanFailedCase_withCase (k : Nat) :
    Queue.scanFailedCase "wa#" (wrongAnswer k) = some (toInt32 (clampLong k)) ∧
      Queue.scanFailedCase "time limit exceeded#" (timeLimitExceeded k) = some (toInt32 (clampLong k)) ∧
      Queue.scanFailedCase "memory limit exceeded#" (memoryLimitExceeded k) =
        some (toInt32 (clampLong k)) :=
  ⟨scanD_formatUnsigned k, scanD_formatUnsigned k, scanD_formatUnsigned k⟩

theorem parseVerdict_wrongAnswer (k : Nat) :
    parseVerdict (wrongAnswer k) = ("wrong_answer".toList, toInt32 (clampLong k)) := by
  have hscan := (scanFailedCase_withCase k).1
  unfold parseVerdict
  rw [if_neg (by rintro ⟨⟩), if_neg (by rintro ⟨⟩), hscan]

theorem parseVerdict_timeLimit (k : Nat) :
    parseVerdict (timeLimitExceeded k) = ("time_limit".toList, toInt32 (clampLong k)) := by
  have hscan := (scanFailedCase_withCase k).2.1
  have hwrong : Queue.scanFailedCase "wa#" (timeLimitExceeded k) = none := rfl
  unfold parseVerdict
  rw [if_neg (by rintro ⟨⟩), if_neg (by rintro ⟨⟩), hwrong, hscan]

theorem parseVerdict_memoryLimit (k : Nat) :
    parseVerdict (memoryLimitExceeded k) = ("memory_limit".toList, toInt32 (clampLong k)) := by
  have hscan := (scanFailedCase_withCase k).2.2
  have hwrong : Queue.scanFailedCase "wa#" (memoryLimitExceeded k) = none := rfl
  have htime : Queue.scanFailedCase "time limit exceeded#" (memoryLimitExceeded k) = none := rfl
  unfold parseVerdict
  rw [if_neg (by rintro ⟨⟩), if_neg (by rintro ⟨⟩), hwrong, htime, hscan]

theorem classified_wrongAnswer (k : Nat) : Classified (wrongAnswer k) 'W' :=
  ⟨rfl, by decide, by rw [parseVerdict_wrongAnswer]; rfl⟩

theorem classified_timeLimit (k : Nat) : Classified (timeLimitExceeded k) 'T' :=
  ⟨rfl, by decide, by rw [parseVerdict_timeLimit]; rfl⟩

theorem classified_memoryLimit (k : Nat) : Classified (memoryLimitExceeded k) 'M' :=
  ⟨rfl, by decide, by rw [parseVerdict_memoryLimit]; rfl⟩

/-- Every message of `grade` gets a marker other than `A`, and the verdict of that marker. -/
theorem GradeMessage.classified {raw : Text} (h : GradeMessage k raw) : ∃ marker, Classified raw marker := by
  cases h with
  | runScript => exact ⟨'E', rfl, by decide, rfl⟩
  | noStat => exact ⟨'E', rfl, by decide, rfl⟩
  | isolateCrashed => exact ⟨'E', rfl, by decide, rfl⟩
  | timeLimit => exact ⟨'T', classified_timeLimit k⟩
  | serverError => exact ⟨'E', rfl, by decide, rfl⟩
  | signal code => exact ⟨'R', rfl, by decide, rfl⟩
  | exitcode code => exact ⟨'R', rfl, by decide, rfl⟩
  | memoryLimit => exact ⟨'M', classified_memoryLimit k⟩
  | checkScript => exact ⟨'E', rfl, by decide, rfl⟩
  | wrongAnswer => exact ⟨'W', classified_wrongAnswer k⟩
  | juryNotPresent => exact ⟨'E', rfl, by decide, rfl⟩
  | juryNotCompiled => exact ⟨'E', rfl, by decide, rfl⟩
  | juryFailed => exact ⟨'E', rfl, by decide, rfl⟩
  | unsupported a b => exact ⟨'E', rfl, by decide, rfl⟩

/-! ## The markers of the cases -/

/-- The result string without its brackets. -/
def caseMarkers (subtaskResults : Text) : Text := subtaskResults.filter fun c => c ≠ '[' && c ≠ ']'

theorem caseMarkers_append (s t : Text) : caseMarkers (s ++ t) = caseMarkers s ++ caseMarkers t :=
  List.filter_append ..

theorem caseMarkers_flatMap {α : Type} (f : α → Text) (l : List α) :
    caseMarkers (l.flatMap f) = l.flatMap fun a => caseMarkers (f a) :=
  List.filter_flatMap ..

theorem caseMarkers_ite {p : Prop} [Decidable p] {s t : Text} (hs : caseMarkers s = [])
    (ht : caseMarkers t = []) : caseMarkers (if p then s else t) = [] := by
  split
  · exact hs
  · exact ht

theorem caseMarkers_flatMap_ite {α : Type} (p : α → Prop) [DecidablePred p] {s : Text}
    (hs : caseMarkers s = []) (l : List α) : caseMarkers (l.flatMap fun a => if p a then s else []) = [] := by
  rw [caseMarkers_flatMap, List.flatMap_eq_nil_iff]
  exact fun a _ => caseMarkers_ite hs rfl

theorem caseMarkers_openBrackets (groups : List Group) (caseId : BitVec 32) :
    caseMarkers (openBrackets groups caseId) = [] := by
  have hopen : caseMarkers "[".toList = [] := by decide
  unfold openBrackets
  split
  · exact caseMarkers_ite hopen rfl
  · exact caseMarkers_ite hopen (caseMarkers_flatMap_ite _ hopen _)

theorem caseMarkers_closeBrackets (countCases : BitVec 32) (groups : List Group) (caseId : BitVec 32) :
    caseMarkers (closeBrackets countCases groups caseId) = [] := by
  have hclose : caseMarkers "]".toList = [] ∧ caseMarkers "][".toList = [] := by decide
  unfold closeBrackets
  split
  · exact caseMarkers_ite hclose.1 rfl
  · exact caseMarkers_ite hclose.1 (caseMarkers_flatMap_ite _ hclose.2 _)

theorem caseMarkers_marker (raw : Option Text) :
    caseMarkers [subtaskCaseMarker raw] = [subtaskCaseMarker raw] := by
  cases raw with
  | none => rfl
  | some raw =>
      simp only [subtaskCaseMarker]
      split_ifs <;> rfl

/-- One marker for each case, whatever the groups. -/
theorem caseMarkers_scoreCases : caseMarkers (scoreCases task groups raws n).subtaskResults =
    (casesUpTo n).map fun k => subtaskCaseMarker (raws k) := by
  rw [scoreCases_subtaskResults, caseMarkers_flatMap, List.map_eq_flatMap]
  apply List.flatMap_congr
  intro k _
  rw [caseText, caseMarkers_append, caseMarkers_append, caseMarkers_openBrackets,
    caseMarkers_closeBrackets, caseMarkers_marker, List.nil_append, List.append_nil]

/-- The first marker that is not an `A` is the one of the first failing message. -/
theorem find?_markers (hmsg : ∀ k raw, raws k = some raw → GradeMessage k raw) :
    ((casesUpTo n).map fun k => subtaskCaseMarker (raws k)).find? (· ≠ 'A') =
      ((casesUpTo n).findSome? raws).map fun raw => subtaskCaseMarker (some raw) := by
  induction casesUpTo n with
  | nil => rfl
  | cons k ks ih =>
      cases hraw : raws k with
      | none =>
          rw [List.map_cons, List.find?_cons_of_neg (by simp [hraw, subtaskCaseMarker]), ih,
            List.findSome?_cons, hraw]
      | some raw =>
          obtain ⟨marker, hclass⟩ := (hmsg k raw hraw).classified
          have hne : subtaskCaseMarker (some raw) ≠ 'A' := hclass.marker_eq ▸ hclass.not_accepted
          rw [List.map_cons, hraw, List.find?_cons_of_pos (by simpa using hne), List.findSome?_cons, hraw]
          rfl

theorem markerVerdict_accepted {c : Char} (h : markerVerdict c = some "accepted".toList) : c = 'A' := by
  unfold markerVerdict at h
  split at h
  · rfl
  all_goals cases h

/-! ## The outcome of the cases -/

theorem gradeCases_markers (first second : Option (List Group)) :
    caseMarkers (gradeCases task first second raws).2.2 =
      (casesUpTo task.countCases).map fun k => subtaskCaseMarker (raws k) :=
  caseMarkers_scoreCases

theorem gradeCases_verdict (first second : Option (List Group))
    (hmsg : ∀ k raw, raws k = some raw → GradeMessage k raw) :
    let verdict := (parseVerdict (gradeCases task first second raws).1).1
    let marks := caseMarkers (gradeCases task first second raws).2.2
    (verdict = "accepted".toList ↔ ∀ c ∈ marks, c = 'A') ∧
      ∀ c, marks.find? (· ≠ 'A') = some c → markerVerdict c = some verdict := by
  intro verdict marks
  have hfind : marks.find? (· ≠ 'A') =
      ((casesUpTo task.countCases).findSome? raws).map fun raw => subtaskCaseMarker (some raw) := by
    rw [← find?_markers hmsg, ← gradeCases_markers first second]
  cases hfail : (casesUpTo task.countCases).findSome? raws with
  | none =>
      have hverdict : verdict = "accepted".toList := by
        have hresult := (gradeCases_passed first second (findSome?_casesUpTo_eq_none.mp hfail)).1
        exact congrArg (fun result => (parseVerdict result).1) hresult
      rw [hfail, Option.map_none] at hfind
      refine ⟨iff_of_true hverdict fun c hc => ?_, fun c hc => ?_⟩
      · simpa using List.find?_eq_none.mp hfind c hc
      · rw [hfind] at hc
        cases hc
  | some raw =>
      have hresult := (gradeCases_failed first second hfail).1
      obtain ⟨k, -, hraw⟩ := List.exists_of_findSome?_eq_some hfail
      obtain ⟨marker, hmarker, hne, hclass⟩ := (hmsg k raw hraw).classified
      have hverdict : markerVerdict marker = some verdict :=
        hclass.trans (congrArg (fun result => some (parseVerdict result).1) hresult.symm)
      rw [hfail, Option.map_some, hmarker] at hfind
      refine ⟨iff_of_false (fun haccepted => ?_) fun hall => ?_, fun c hc => ?_⟩
      · exact hne (markerVerdict_accepted (haccepted ▸ hverdict))
      · exact hne (hall marker (List.mem_of_find?_eq_some hfind))
      · rw [hfind] at hc
        cases hc
        exact hverdict

end Tle.Grade
