import Tle.Grade.Lemmas.JudgeFile

/-!
# What a judge's result file says
-/

namespace Tle.Grade
open Tle.Lib

variable {ls ls' : List Text} {line key : Text} {word : String} {files : Text → Option Text}

/-- The key before the first `=` of a line and the value behind it. -/
def setting (line : Text) : Option (Text × Text) :=
  match line.dropWhile (· ≠ '=') with
  | [] => none
  | _ :: value => some (trimLine (line.takeWhile (· ≠ '=')), trimLine value)

def settings (ls : List Text) : List (Text × Text) := ls.filterMap setting

/-- The value of the last line with the key. -/
def lastValue (word : String) (ls : List Text) : Option Text :=
  ((settings ls).filter fun s => s.1 = word.toList).getLast?.map (·.2)

def judgeKeys : List String := ["result", "score", "time_ms", "memory_kb", "compiler_output_file"]

/-- The line sets something. -/
def isKnown (line : Text) : Bool := (setting line).any fun s => judgeKeys.any fun word => s.1 = word.toList

/-! ## The last line with a key -/

theorem lastValue_of_none (hset : setting line = none) (word : String) (ls : List Text) :
    lastValue word (ls ++ [line]) = lastValue word ls := by
  simp [lastValue, settings, hset]

theorem lastValue_of_some {value : Text} (hset : setting line = some (key, value)) (word : String) (ls : List Text) :
    lastValue word (ls ++ [line]) = if key = word.toList then some value else lastValue word ls := by
  rw [lastValue, settings, List.filterMap_append, List.filter_append]
  by_cases hkey : key = word.toList
  · simp [hset, hkey]
  · simp [hset, hkey, lastValue, settings]

theorem settings_filter_known (ls : List Text) : settings (ls.filter isKnown) =
    (settings ls).filter fun s => judgeKeys.any fun word => s.1 = word.toList := by
  rw [settings, settings, List.filterMap_filter, List.filter_filterMap]
  congr 1
  funext line
  cases hset : setting line with
  | none => simp [isKnown, hset]
  | some s => simp [isKnown, hset, Option.filter_some]

/-- Other lines do not matter. -/
theorem lastValue_filter_known (hword : word ∈ judgeKeys) (ls : List Text) :
    lastValue word (ls.filter isKnown) = lastValue word ls := by
  rw [lastValue, settings_filter_known, List.filter_filter, lastValue]
  congr 3
  funext s
  by_cases hs : s.1 = word.toList
  · have hany : judgeKeys.any (fun word => s.1 = word.toList) = true :=
      List.any_eq_true.mpr ⟨word, hword, decide_eq_true hs⟩
    simp only [hs, decide_true, Bool.true_and]
    rw [← hs]
    exact hany
  · simp [hs]

/-- Where no key comes twice, the order does not matter. -/
theorem lastValue_perm (hperm : ls.Perm ls') (hkeys : ((settings ls).map (·.1)).Nodup) (word : String) :
    lastValue word ls = lastValue word ls' := by
  have hsettings : ((settings ls).filter fun s => s.1 = word.toList).Perm
      ((settings ls').filter fun s => s.1 = word.toList) := (hperm.filterMap _).filter _
  have hone : ((settings ls).filter fun s => s.1 = word.toList).length ≤ 1 := by
    generalize settings ls = ss at hkeys
    induction ss with
    | nil => simp
    | cons s ss ih =>
        rw [List.map_cons, List.nodup_cons] at hkeys
        by_cases hs : s.1 = word.toList
        · have hnone : ss.filter (fun s => s.1 = word.toList) = [] := by
            rw [List.filter_eq_nil_iff]
            intro s' hs' heq
            apply hkeys.1
            rw [hs, ← of_decide_eq_true heq]
            exact List.mem_map_of_mem hs'
          rw [List.filter_cons_of_pos (by simp [hs]), hnone]
          simp
        · rw [List.filter_cons_of_neg (by simp [hs])]
          exact ih hkeys.2
  rw [lastValue, lastValue]
  cases hfilter : (settings ls).filter (fun s => s.1 = word.toList) with
  | nil =>
      rw [hfilter, List.nil_perm] at hsettings
      rw [hsettings]
  | cons s ss =>
      rw [hfilter, List.length_cons] at hone
      have hnil : ss = [] := List.length_eq_zero_iff.mp (by omega)
      rw [hfilter, hnil, List.singleton_perm] at hsettings
      rw [← hsettings, hnil]

/-! ## The report -/

/-- The report from the last values alone. -/
def reportOf (files : Text → Option Text) (ls : List Text) : JudgeReport where
  result := lastValue "result" ls
  score := (lastValue "score" ls).elim (.finite 0) strtod
  timeUsed := (lastValue "time_ms" ls).elim 0 fun value => strtoul value % 2 ^ 32
  memoryUsed := (lastValue "memory_kb" ls).elim 0 fun value => strtoul value % 2 ^ 32
  compilerOutput := (lastValue "compiler_output_file" ls).bind files

theorem readLine_of_none (hset : setting line = none) (r : JudgeReport) : r.readLine files line = r := by
  unfold setting at hset
  unfold JudgeReport.readLine
  cases hdrop : line.dropWhile (· ≠ '=') with
  | nil => rfl
  | cons c value =>
      rw [hdrop] at hset
      cases hset

theorem readLine_of_some {value : Text} (hset : setting line = some (key, value)) (r : JudgeReport) :
    r.readLine files line =
      if key = "result".toList then { r with result := some value }
      else if key = "score".toList then { r with score := strtod value }
      else if key = "time_ms".toList then { r with timeUsed := strtoul value % 2 ^ 32 }
      else if key = "memory_kb".toList then { r with memoryUsed := strtoul value % 2 ^ 32 }
      else if key = "compiler_output_file".toList then { r with compilerOutput := files value }
      else r := by
  unfold setting at hset
  unfold JudgeReport.readLine
  cases hdrop : line.dropWhile (· ≠ '=') with
  | nil =>
      rw [hdrop] at hset
      cases hset
  | cons c value =>
      rw [hdrop] at hset
      cases hset
      rfl

theorem foldl_readLine (files : Text → Option Text) (ls : List Text) :
    ls.foldl (JudgeReport.readLine files) {} = reportOf files ls := by
  induction ls using List.reverseRecOn with
  | nil => rfl
  | append_singleton ls line ih =>
      rw [List.foldl_append, ih, List.foldl_cons, List.foldl_nil]
      cases hset : setting line with
      | none => simp only [readLine_of_none hset, reportOf, lastValue_of_none hset]
      | some s =>
          obtain ⟨key, value⟩ := s
          simp only [readLine_of_some hset, reportOf, lastValue_of_some hset]
          by_cases hresult : key = "result".toList
          · subst hresult
            simp
          · by_cases hscore : key = "score".toList
            · subst hscore
              simp
            · by_cases htime : key = "time_ms".toList
              · subst htime
                simp
              · by_cases hmemory : key = "memory_kb".toList
                · subst hmemory
                  simp
                · by_cases houtput : key = "compiler_output_file".toList
                  · subst houtput
                    simp
                  · simp only [hresult, hscore, htime, hmemory, houtput, if_false]

theorem judgeReport_eq_reportOf (files : Text → Option Text) (written : Text) :
    InPlace.judgeReport files written = reportOf files (lines written) := by
  rw [InPlace.judgeReport_eq, judgeReport, foldl_readLine]

theorem reportOf_filter_known (files : Text → Option Text) (ls : List Text) :
    reportOf files (ls.filter isKnown) = reportOf files ls := by
  have hall : ∀ word ∈ judgeKeys, lastValue word (ls.filter isKnown) = lastValue word ls :=
    fun word hword => lastValue_filter_known hword ls
  rw [reportOf, reportOf, hall _ (by simp [judgeKeys]), hall _ (by simp [judgeKeys]), hall _ (by simp [judgeKeys]),
    hall _ (by simp [judgeKeys]), hall _ (by simp [judgeKeys])]

theorem reportOf_perm (hperm : ls.Perm ls') (hkeys : ((settings ls).map (·.1)).Nodup) (files : Text → Option Text) :
    reportOf files ls = reportOf files ls' := by
  have hall := lastValue_perm hperm hkeys
  rw [reportOf, reportOf, hall, hall, hall, hall, hall]

/-! ## A file of lines -/

/-- The bytes between two line ends. -/
structure Line where
  text : Text
  newline : '\n' ∉ text
  nul : '\x00' ∉ text

def fileOf (ls : List Line) : Text := ls.flatMap fun l => l.text ++ ['\n']

theorem lines_fileOf (ls : List Line) : lines (fileOf ls) = (ls.map Line.text).filter (· ≠ []) := by
  have hnul : '\x00' ∉ fileOf ls := by
    intro hmem
    obtain ⟨l, -, hl⟩ := List.mem_flatMap.mp hmem
    rw [List.mem_append, List.mem_singleton] at hl
    exact hl.elim l.nul (by decide)
  rw [lines, cstr_eq_self.mpr hnul]
  clear hnul
  induction ls with
  | nil => rfl
  | cons l ls ih =>
      have hsplit : fileOf (l :: ls) = l.text ++ '\n' :: fileOf ls := by simp [fileOf]
      rw [hsplit, fields_append_cons_sep (by simp), ih, List.map_cons]
      by_cases hnil : l.text = []
      · simp [hnil]
      · have hline : fields (fun c => decide (c = '\n')) l.text = [l.text] := by
          have happend := @fields_append _ (fun c => decide (c = '\n')) l.text [] hnil
            (fun c hc => decide_eq_false fun heq => l.newline (heq ▸ hc)) (by simp)
          rwa [List.append_nil, fields_nil] at happend
        rw [hline, List.filter_cons_of_pos (by simp [hnil])]
        rfl

theorem setting_nil : setting [] = none := rfl

theorem settings_lines_fileOf (ls : List Line) : settings (lines (fileOf ls)) = settings (ls.map Line.text) := by
  rw [lines_fileOf, settings, settings, List.filterMap_filter]
  congr 1
  funext line
  by_cases hnil : line = []
  · simp [hnil, setting_nil]
  · simp [hnil]

/-- What the judge script reports is what the last lines with its keys say. -/
theorem judge_result_spec (files : Text → Option Text) :
    (∀ written, let o := (InPlace.judgeReport files written).outcome
      let ls := lines written
      o.result = (lastValue "result" ls).getD "internal error: custom judge produced no result".toList ∧
      o.score = (lastValue "score" ls).elim (.finite 0) strtod ∧
      o.timeUsed = (lastValue "time_ms" ls).elim 0 (fun value => strtoul value % 2 ^ 32) ∧
      o.memoryUsed = (lastValue "memory_kb" ls).elim 0 (fun value => strtoul value % 2 ^ 32)) ∧
    (∀ ls : List Line, (InPlace.judgeReport files (fileOf (ls.filter fun l => isKnown l.text))).outcome =
      (InPlace.judgeReport files (fileOf ls)).outcome) ∧
    (∀ ls ls' : List Line, ls.Perm ls' → ((settings (ls.map Line.text)).map (·.1)).Nodup →
      (InPlace.judgeReport files (fileOf ls)).outcome = (InPlace.judgeReport files (fileOf ls')).outcome) := by
  refine ⟨?_, ?_, ?_⟩
  · intro written
    simp only [judgeReport_eq_reportOf]
    exact ⟨rfl, rfl, rfl, rfl⟩
  · intro ls
    have hlines : lines (fileOf (ls.filter fun l => isKnown l.text)) = (lines (fileOf ls)).filter isKnown := by
      have hmap : (ls.filter fun l => isKnown l.text).map Line.text = (ls.map Line.text).filter isKnown := by
        rw [List.filter_map]
        rfl
      rw [lines_fileOf, lines_fileOf, hmap, List.filter_filter, List.filter_filter]
      congr 1
      funext line
      exact Bool.and_comm _ _
    rw [judgeReport_eq_reportOf, judgeReport_eq_reportOf, hlines, reportOf_filter_known]
  · intro ls ls' hperm hkeys
    have hlines : (lines (fileOf ls)).Perm (lines (fileOf ls')) := by
      rw [lines_fileOf, lines_fileOf]
      exact (hperm.map _).filter _
    rw [← settings_lines_fileOf] at hkeys
    rw [judgeReport_eq_reportOf, judgeReport_eq_reportOf, reportOf_perm hlines hkeys]

end Tle.Grade
