import Mathlib.Data.List.DropRight
import Tle.Grade.JudgeFile

/-!
# What is left of a line that has been cut up

Trimming writes terminators over the blanks at the end and moves the pointer over those at the start. Trimming once
more does the same.
-/

namespace Tle.Grade.InPlace
open Tle.Lib

variable {pre post s key value line : Text} {mem : Text} {files : Text → Option Text} {r : JudgeReport} {c : Char}
  {word : String}

/-! ## One string -/

def leading (s : Text) : Text := s.takeWhile isBlank

/-- Without the blanks at the end. -/
def shortened (s : Text) : Text := (s.reverse.dropWhile isBlank).reverse

theorem trimLine_eq_shortened (s : Text) : Grade.trimLine s = shortened (s.dropWhile isBlank) := rfl

/-- What a trimmed string leaves in memory. -/
def trimmed (s : Text) : Text :=
  leading s ++ (Grade.trimLine s ++
    List.replicate ((s.dropWhile isBlank).length - (Grade.trimLine s).length) '\x00')

theorem shortened_append_blank (hc : isBlank c = true) (s : Text) : shortened (s ++ [c]) = shortened s := by
  simp [shortened, hc]

theorem shortened_append_other (hc : isBlank c = false) (s : Text) : shortened (s ++ [c]) = s ++ [c] := by
  simp [shortened, hc]

theorem prefix_shortened (s : Text) : shortened s <+: s := by
  have hsuffix : s.reverse.dropWhile isBlank <:+ s.reverse := List.dropWhile_suffix _
  rw [shortened]
  exact List.reverse_suffix.mp (by simpa using hsuffix)

theorem shortened_shortened (s : Text) : shortened (shortened s) = shortened s := by
  rw [shortened, shortened, List.reverse_reverse, List.dropWhile_idempotent]

theorem prefix_trimLine (s : Text) : Grade.trimLine s <+: s.dropWhile isBlank := prefix_shortened _

theorem length_trimmed (s : Text) : (trimmed s).length = s.length := by
  have hsplit := congrArg List.length (List.takeWhile_append_dropWhile (p := isBlank) (l := s))
  have hle := (prefix_trimLine s).length_le
  rw [List.length_append] at hsplit
  simp only [trimmed, leading, List.length_append, List.length_replicate]
  omega

theorem nul_not_mem_trimLine (hs : '\x00' ∉ s) : '\x00' ∉ Grade.trimLine s := fun hmem =>
  hs ((List.dropWhile_suffix _).subset ((prefix_trimLine s).subset hmem))

theorem nul_not_mem_leading (hs : '\x00' ∉ s) : '\x00' ∉ leading s := fun hmem =>
  hs ((List.takeWhile_prefix _).subset hmem)

/-- The loop at the end of `trim_line`. -/
theorem cutBlanks_eq (pre s post : Text) : cutBlanks (pre ++ (s ++ post)) pre.length s.length =
    pre ++ (shortened s ++ (List.replicate (s.length - (shortened s).length) '\x00' ++ post)) := by
  induction s using List.reverseRecOn generalizing post with
  | nil => rfl
  | append_singleton s c ih =>
      have hat : (pre ++ (s ++ [c] ++ post))[pre.length + s.length]? = some c := by
        rw [List.getElem?_append_right (by omega), List.append_assoc, List.getElem?_append_right (by omega)]
        simp
      rw [List.length_append, List.length_singleton, cutBlanks, hat]
      cases hc : isBlank c with
      | true =>
          have hset : (pre ++ (s ++ [c] ++ post)).set (pre.length + s.length) '\x00' =
              pre ++ (s ++ '\x00' :: post) := by
            have hassoc : pre ++ (s ++ [c] ++ post) = pre ++ s ++ c :: post := by simp
            rw [hassoc, set_eq (by simp), List.append_assoc]
          have hle := (prefix_shortened s).length_le
          have hcount : s.length + 1 - (shortened s).length = s.length - (shortened s).length + 1 := by omega
          rw [if_pos (by simp [hc]), hset, ih, shortened_append_blank hc, hcount, List.replicate_succ']
          simp
      | false =>
          rw [if_neg (by simp [hc]), shortened_append_other hc]
          simp

theorem trimLine_eq (hs : '\x00' ∉ s) : trimLine (pre ++ (s ++ '\x00' :: post)) pre.length =
    (pre ++ (trimmed s ++ '\x00' :: post), (pre ++ leading s).length) := by
  have hsplit : s = leading s ++ s.dropWhile isBlank := List.takeWhile_append_dropWhile.symm
  have hbody : '\x00' ∉ s.dropWhile isBlank := fun hmem => hs ((List.dropWhile_suffix _).subset hmem)
  have hmem : pre ++ (s ++ '\x00' :: post) = pre ++ leading s ++ (s.dropWhile isBlank ++ '\x00' :: post) := by
    nth_rewrite 1 [hsplit]
    simp
  have hpointer : pre.length + ((strAt (pre ++ (s ++ '\x00' :: post)) pre.length).takeWhile isBlank).length =
      (pre ++ leading s).length := by
    rw [strAt_eq hs, List.length_append, leading]
  rw [trimLine]
  simp only [hpointer]
  rw [hmem, strAt_eq hbody, cutBlanks_eq]
  simp [trimmed, trimLine_eq_shortened]

theorem replicate_append_cons (n : Nat) (c : Char) (post : Text) :
    List.replicate n c ++ c :: post = c :: (List.replicate n c ++ post) := by
  rw [← List.cons_append, ← List.replicate_succ, List.replicate_succ', List.append_assoc]
  rfl

/-- A trimmed string as a string, with what is behind its new terminator. -/
theorem trimmed_append (pre s post : Text) : ∃ post', pre ++ (trimmed s ++ '\x00' :: post) =
    pre ++ (leading s ++ Grade.trimLine s ++ '\x00' :: post') := by
  refine ⟨List.replicate ((s.dropWhile isBlank).length - (Grade.trimLine s).length) '\x00' ++ post, ?_⟩
  rw [trimmed, List.append_assoc, List.append_assoc, List.append_assoc, replicate_append_cons]

/-- At the pointer that is returned there is the trimmed string. -/
theorem strAt_trimmed (hs : '\x00' ∉ s) :
    strAt (pre ++ (trimmed s ++ '\x00' :: post)) (pre ++ leading s).length = Grade.trimLine s := by
  obtain ⟨post', hpost⟩ := trimmed_append pre s post
  have hassoc : pre ++ (leading s ++ Grade.trimLine s ++ '\x00' :: post') =
      pre ++ leading s ++ (Grade.trimLine s ++ '\x00' :: post') := by simp
  rw [hpost, hassoc, strAt_eq (nul_not_mem_trimLine hs)]

/-- A string is trimmed once and for all. -/
theorem trim_again (s : Text) : leading (leading s ++ Grade.trimLine s) = leading s ∧
    Grade.trimLine (leading s ++ Grade.trimLine s) = Grade.trimLine s ∧
    trimmed (leading s ++ Grade.trimLine s) = leading s ++ Grade.trimLine s := by
  have hblank : ∀ c ∈ leading s, isBlank c = true := fun c hc => List.mem_takeWhile_imp hc
  have hhead : ∀ c, (Grade.trimLine s).head? = some c → isBlank c = false := by
    intro c hc
    have hbody : (s.dropWhile isBlank).head? = some c := by
      obtain ⟨t, ht⟩ := prefix_trimLine s
      rw [← ht, List.head?_append, hc]
      rfl
    have hnot := List.head?_dropWhile_not isBlank s
    rw [hbody] at hnot
    simpa using hnot
  have htake : (Grade.trimLine s).takeWhile isBlank = [] ∧
      (Grade.trimLine s).dropWhile isBlank = Grade.trimLine s := by
    cases hcore : Grade.trimLine s with
    | nil => exact ⟨rfl, rfl⟩
    | cons c t =>
        have hc := hhead c (by rw [hcore, List.head?_cons])
        simp [hc]
  have hleading : leading (leading s ++ Grade.trimLine s) = leading s := by
    rw [leading, List.takeWhile_append_of_pos hblank, htake.1, List.append_nil]
  have hbody : (leading s ++ Grade.trimLine s).dropWhile isBlank = Grade.trimLine s := by
    rw [List.dropWhile_append_of_pos hblank, htake.2]
  have hcore : Grade.trimLine (leading s ++ Grade.trimLine s) = Grade.trimLine s := by
    rw [trimLine_eq_shortened, hbody, trimLine_eq_shortened, shortened_shortened]
  refine ⟨hleading, hcore, ?_⟩
  rw [trimmed, hleading, hcore, hbody]
  simp

/-! ## The keys -/

theorem keyIs_eq (hs : '\x00' ∉ s) : keyIs (pre ++ (s ++ '\x00' :: post)) pre.length word =
    (pre ++ (trimmed s ++ '\x00' :: post), decide (Grade.trimLine s = word.toList)) := by
  simp only [keyIs, trimLine_eq hs, strAt_trimmed hs]

/-- Asking for another key changes nothing more. -/
theorem keyIs_again (hs : '\x00' ∉ s) : keyIs (pre ++ (trimmed s ++ '\x00' :: post)) pre.length word =
    (pre ++ (trimmed s ++ '\x00' :: post), decide (Grade.trimLine s = word.toList)) := by
  obtain ⟨post', hpost⟩ := trimmed_append pre s post
  obtain ⟨-, hcore, htrimmed⟩ := trim_again s
  have hnul : '\x00' ∉ leading s ++ Grade.trimLine s := by
    rw [List.mem_append, not_or]
    exact ⟨nul_not_mem_leading hs, nul_not_mem_trimLine hs⟩
  rw [hpost, keyIs_eq hnul, hcore, htrimmed]

/-! ## One line -/

theorem readLine_skips (hs : '\x00' ∉ line) (hequals : '=' ∉ line) :
    readLine files (pre ++ (line ++ '\x00' :: post)) r pre.length = (pre ++ (line ++ '\x00' :: post), r) ∧
      r.readLine files line = r := by
  have hdrop : line.dropWhile (· ≠ '=') = [] := by
    rw [List.dropWhile_eq_nil_iff]
    intro c hc
    exact decide_eq_true fun heq => hequals (heq ▸ hc)
  constructor
  · rw [readLine, strchr_none hs hequals]
  · simp only [JudgeReport.readLine, hdrop]

theorem readLine_setting (hkey : '\x00' ∉ key) (hvalue : '\x00' ∉ value) (hequals : '=' ∉ key) :
    readLine files (pre ++ (key ++ '=' :: value ++ '\x00' :: post)) r pre.length =
      (pre ++ (trimmed key ++ '\x00' :: (trimmed value ++ '\x00' :: post)),
        r.readLine files (key ++ '=' :: value)) := by
  have hs : '\x00' ∉ key ++ '=' :: value := by simp [hkey, hvalue]
  have hset : (pre ++ (key ++ '=' :: value ++ '\x00' :: post)).set (pre.length + key.length) '\x00' =
      pre ++ key ++ ['\x00'] ++ (value ++ '\x00' :: post) := by
    have hassoc : pre ++ (key ++ '=' :: value ++ '\x00' :: post) =
        pre ++ key ++ '=' :: (value ++ '\x00' :: post) := by simp
    rw [hassoc, set_eq (by simp)]
    simp
  have hnext : pre.length + key.length + 1 = (pre ++ key ++ ['\x00']).length := by
    simp [Nat.add_assoc]
  have hmem : pre ++ key ++ ['\x00'] ++ (trimmed value ++ '\x00' :: post) =
      pre ++ (key ++ '\x00' :: (trimmed value ++ '\x00' :: post)) := by simp
  have hvalueAt : strAt (pre ++ (trimmed key ++ '\x00' :: (trimmed value ++ '\x00' :: post)))
      (pre ++ key ++ ['\x00'] ++ leading value).length = Grade.trimLine value := by
    have hassoc : pre ++ (trimmed key ++ '\x00' :: (trimmed value ++ '\x00' :: post)) =
        pre ++ trimmed key ++ ['\x00'] ++ (trimmed value ++ '\x00' :: post) := by simp
    have hlength : (pre ++ key ++ ['\x00'] ++ leading value).length =
        (pre ++ trimmed key ++ ['\x00'] ++ leading value).length := by simp [length_trimmed]
    rw [hassoc, hlength, strAt_trimmed hvalue]
  have hdrop : (key ++ '=' :: value).dropWhile (· ≠ '=') = '=' :: value := dropWhile_append_cons hequals
  have htake : (key ++ '=' :: value).takeWhile (· ≠ '=') = key := takeWhile_append_cons hequals
  simp only [readLine, strchr_some hs hequals, hset, hnext, trimLine_eq hvalue, hmem, keyIs_eq hkey, keyIs_again hkey,
    hvalueAt, JudgeReport.readLine, hdrop, htake, decide_eq_true_eq]
  split_ifs <;> rfl

/-- A line is read as from its text, and does not grow. -/
theorem readLine_eq (hs : '\x00' ∉ line) : ∃ line', line'.length = line.length ∧
    readLine files (pre ++ (line ++ '\x00' :: post)) r pre.length =
      (pre ++ (line' ++ '\x00' :: post), r.readLine files line) := by
  by_cases hequals : '=' ∈ line
  · obtain ⟨key, value, rfl, hkey⟩ := List.eq_append_cons_of_mem hequals
    rw [List.mem_append, List.mem_cons, not_or, not_or] at hs
    refine ⟨trimmed key ++ '\x00' :: trimmed value, by simp [length_trimmed], ?_⟩
    rw [readLine_setting hs.1 hs.2.2 hkey]
    simp
  · obtain ⟨hskips, hsame⟩ := @readLine_skips pre post line files r hs hequals
    exact ⟨line, rfl, by rw [hskips, hsame]⟩

/-! ## All lines -/

theorem readLines_eq {files : Text → Option Text} {pre s post : Text} {r : JudgeReport} (hs : '\x00' ∉ s) :
    readLines files (pre ++ (s ++ '\x00' :: post)) r pre.length =
      (fields (· = '\n') s).foldl (JudgeReport.readLine files) r := by
  obtain ⟨hall, hfields⟩ | ⟨seps, tok, rest, hsplit, hseps, hne, htok, hrest, hfields⟩ :=
    fields_cases (· = '\n') s
  · rw [readLines]
    split
    · rw [hfields]
      rfl
    · rename_i hsome
      rw [strtokR_none hs hall] at hsome
      cases hsome
  · have hs' : '\x00' ∉ seps ++ (tok ++ rest) := hsplit ▸ hs
    obtain ⟨behind, save, hstrtok, hbehind⟩ := @strtokR_some pre tok rest post _ seps hs' hseps hne htok hrest
    rw [← hsplit] at hstrtok
    have hnul : '\x00' ∉ tok := fun hmem => hs' (by simp [hmem])
    obtain ⟨tok', hlength, hline⟩ := @readLine_eq (pre ++ seps) behind tok files r hnul
    obtain ⟨pre', rest', post', hsame, hnul', hshort, hsave, hmem⟩ := hbehind tok' hlength
    have hless : rest'.length < s.length := by
      have hpos := List.length_pos_iff.mpr hne
      rw [hsplit, List.length_append, List.length_append]
      omega
    have ih := @readLines_eq files pre' rest' post' (r.readLine files tok) hnul'
    rw [readLines]
    split
    · rename_i hnone
      rw [hstrtok] at hnone
      cases hnone
    · rename_i start mem save' hsome
      rw [hstrtok] at hsome
      cases hsome
      rw [hline, hfields, List.foldl_cons, hsame, ← ih, hmem, hsave]
termination_by s.length
decreasing_by exact hless

/-- Cutting the lines up in memory does not change what is read. -/
theorem judgeReport_eq (files : Text → Option Text) (written : Text) :
    judgeReport files written = Grade.judgeReport files written := by
  have hnul : '\x00' ∉ cstr written := nul_not_mem_cstr written
  obtain ⟨post, hpost⟩ : ∃ post, written ++ ['\x00'] = cstr written ++ '\x00' :: post := by
    by_cases hmem : '\x00' ∈ written
    · obtain ⟨junk, hjunk⟩ := exists_of_nul_mem hmem
      exact ⟨junk ++ ['\x00'], by nth_rewrite 1 [hjunk]; simp⟩
    · exact ⟨[], by rw [cstr_eq_self.mpr hmem]⟩
  have hread := @readLines_eq files [] (cstr written) post {} hnul
  rw [judgeReport, hpost]
  exact hread

end Tle.Grade.InPlace
