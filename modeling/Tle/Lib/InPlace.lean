import Tle.Lib.Fields
import Tle.Lib.Scan

/-!
# Strings that are cut up where they stand

The memory is a list of bytes and a pointer is an index. A string is written as what stands before it, its bytes,
its terminator and what stands behind.
-/

namespace Tle.Lib

variable {pre s tok rest post : Text} {c delim : Char} {n : Nat}

/-- The string at a pointer. -/
def strAt (mem : Text) (p : Nat) : Text := cstr (mem.drop p)

/-- `strchr(p, c)`, for a `c` that is no terminator. -/
def strchr (mem : Text) (p : Nat) (c : Char) : Option Nat :=
  if c ∈ strAt mem p then some (p + ((strAt mem p).takeWhile (· ≠ c)).length) else none

/-- `strtok_r` with one delimiter: the token, the memory and the pointer that is saved. -/
def strtokR (mem : Text) (p : Nat) (delim : Char) : Option (Nat × Text × Nat) :=
  let start := p + ((strAt mem p).takeWhile (· = delim)).length
  let s := (strAt mem p).dropWhile (· = delim)
  if s = [] then none
  else
    let stop := start + (s.takeWhile (· ≠ delim)).length
    if s.dropWhile (· ≠ delim) = [] then some (start, mem, stop)
    else some (start, mem.set stop '\x00', stop + 1)

/-! ## Reading and writing -/

theorem strAt_eq (h : '\x00' ∉ s) : strAt (pre ++ (s ++ '\x00' :: post)) pre.length = s := by
  rw [strAt, List.drop_left, cstr_append_of_not_mem h, cstr_nul, List.append_nil]

theorem set_eq (hn : n = pre.length) : (pre ++ c :: post).set n '\x00' = pre ++ '\x00' :: post := by
  subst hn
  rw [List.set_append_right _ _ (Nat.le_refl _), Nat.sub_self, List.set_cons_zero]

theorem strchr_none (hs : '\x00' ∉ s) (hc : c ∉ s) : strchr (pre ++ (s ++ '\x00' :: post)) pre.length c = none := by
  rw [strchr, strAt_eq hs, if_neg hc]

theorem takeWhile_append_cons (hs : c ∉ s) : (s ++ c :: post).takeWhile (· ≠ c) = s := by
  have hpos : ∀ d ∈ s, decide (d ≠ c) = true := by
    intro d hd
    exact decide_eq_true fun heq => hs (heq ▸ hd)
  rw [List.takeWhile_append_of_pos hpos]
  simp

theorem dropWhile_append_cons (hs : c ∉ s) : (s ++ c :: post).dropWhile (· ≠ c) = c :: post := by
  have hpos : ∀ d ∈ s, decide (d ≠ c) = true := by
    intro d hd
    exact decide_eq_true fun heq => hs (heq ▸ hd)
  rw [List.dropWhile_append_of_pos hpos]
  simp

theorem strchr_some (hs : '\x00' ∉ s ++ c :: rest) (hc : c ∉ s) :
    strchr (pre ++ (s ++ c :: rest ++ '\x00' :: post)) pre.length c = some (pre.length + s.length) := by
  rw [strchr, strAt_eq hs, if_pos (by simp), takeWhile_append_cons hc]

/-! ## Tokens -/

theorem strtokR_none (hs : '\x00' ∉ s) (hall : ∀ c ∈ s, decide (c = delim) = true) :
    strtokR (pre ++ (s ++ '\x00' :: post)) pre.length delim = none := by
  have hnil : s.dropWhile (· = delim) = [] := List.dropWhile_eq_nil_iff.mpr hall
  rw [strtokR, strAt_eq hs]
  simp only [hnil, if_true]

/-- The next token is looked for further behind. -/
theorem strtokR_advances {mem mem' : Text} {p start save : Nat} (h : strtokR mem p delim = some (start, mem', save)) :
    mem'.length - save < mem.length - p := by
  simp only [strtokR] at h
  split at h
  · cases h
  · rename_i hne
    have hinside : p < mem.length := by
      by_contra hle
      rw [strAt, List.drop_of_length_le (Nat.le_of_not_lt hle)] at hne
      exact hne rfl
    split at h
    · rename_i hrest
      have hsplit := List.takeWhile_append_dropWhile (p := fun c => decide (c ≠ delim))
        (l := (strAt mem p).dropWhile (· = delim))
      rw [hrest, List.append_nil] at hsplit
      have hpos := List.length_pos_iff.mpr hne
      cases h
      rw [hsplit]
      omega
    · cases h
      rw [List.length_set]
      omega

section Token

variable {seps : Text}

theorem takeWhile_seps (hseps : ∀ c ∈ seps, decide (c = delim) = true) (hne : tok ≠ [])
    (htok : ∀ c ∈ tok, decide (c = delim) = false) : (seps ++ (tok ++ rest)).takeWhile (· = delim) = seps ∧
      (seps ++ (tok ++ rest)).dropWhile (· = delim) = tok ++ rest := by
  obtain ⟨c, t, rfl⟩ := List.exists_cons_of_ne_nil hne
  have hc := htok c List.mem_cons_self
  rw [List.takeWhile_append_of_pos hseps, List.dropWhile_append_of_pos hseps]
  simp [hc]

theorem takeWhile_token (htok : ∀ c ∈ tok, decide (c = delim) = false)
    (hrest : ∀ c, rest.head? = some c → decide (c = delim) = true) :
    (tok ++ rest).takeWhile (· ≠ delim) = tok ∧ (tok ++ rest).dropWhile (· ≠ delim) = rest := by
  have hpos : ∀ c ∈ tok, decide (c ≠ delim) = true := by
    intro c hc
    simpa using htok c hc
  rw [List.takeWhile_append_of_pos hpos, List.dropWhile_append_of_pos hpos]
  cases rest with
  | nil => simp
  | cons c t =>
      have hc : c = delim := by simpa using hrest c rfl
      simp [hc]

/-- The first token of a string. Whatever takes its place, the saved pointer stands at the rest. -/
theorem strtokR_some (hs : '\x00' ∉ seps ++ (tok ++ rest)) (hseps : ∀ c ∈ seps, decide (c = delim) = true)
    (hne : tok ≠ []) (htok : ∀ c ∈ tok, decide (c = delim) = false)
    (hrest : ∀ c, rest.head? = some c → decide (c = delim) = true) :
    ∃ behind save, strtokR (pre ++ (seps ++ (tok ++ rest) ++ '\x00' :: post)) pre.length delim =
        some ((pre ++ seps).length, pre ++ seps ++ (tok ++ '\x00' :: behind), save) ∧
      ∀ tok' : Text, tok'.length = tok.length → ∃ pre' rest' post', fields (· = delim) rest = fields (· = delim) rest' ∧
        '\x00' ∉ rest' ∧ rest'.length ≤ rest.length ∧ save = pre'.length ∧
        pre ++ seps ++ (tok' ++ '\x00' :: behind) = pre' ++ (rest' ++ '\x00' :: post') := by
  have hstart : pre.length + seps.length = (pre ++ seps).length := List.length_append.symm
  obtain ⟨hskip, hleft⟩ := @takeWhile_seps tok rest _ _ hseps hne htok
  obtain ⟨htake, hdrop⟩ := takeWhile_token htok hrest
  simp only [strtokR, strAt_eq hs, hskip, hleft, htake, hdrop, hstart]
  rw [if_neg (by simp [hne])]
  cases rest with
  | nil =>
      rw [if_pos rfl]
      refine ⟨post, (pre ++ seps).length + tok.length, by simp, ?_⟩
      intro tok' hlength
      refine ⟨pre ++ seps ++ tok', [], post, rfl, by simp, Nat.le_refl 0, ?_, by simp⟩
      simp [hlength, Nat.add_assoc]
  | cons c t =>
      have hc : c = delim := by simpa using hrest c rfl
      have hset : (pre ++ (seps ++ (tok ++ c :: t) ++ '\x00' :: post)).set ((pre ++ seps).length + tok.length) '\x00' =
          pre ++ seps ++ (tok ++ '\x00' :: (t ++ '\x00' :: post)) := by
        have hassoc : pre ++ (seps ++ (tok ++ c :: t) ++ '\x00' :: post) =
            pre ++ seps ++ tok ++ c :: (t ++ '\x00' :: post) := by simp
        rw [hassoc, set_eq (by simp [Nat.add_assoc]), List.append_assoc]
      rw [if_neg (List.cons_ne_nil _ _), hset]
      refine ⟨t ++ '\x00' :: post, (pre ++ seps).length + tok.length + 1, rfl, ?_⟩
      intro tok' hlength
      refine ⟨pre ++ seps ++ tok' ++ ['\x00'], t, post, ?_, ?_, Nat.le_succ _, ?_, by simp⟩
      · exact fields_cons_sep (by simp [hc])
      · intro hmem
        exact hs (by simp [hmem])
      · simp [hlength, Nat.add_assoc]

end Token

end Tle.Lib
