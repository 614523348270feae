import Tle.Lib.Cuts
import Tle.Lib.Numerals

/-!
# Numbers in a value that arrives in chunks

What `strtol` and `strtoul` make of the ends and of the cuts of a value.
-/

namespace Tle.Web
open Tle.Lib

variable {v s t : Text} {c d : Char} {x : Int}

theorem ne_nul_of_isDigit (h : c.isDigit = true) : c ≠ '\x00' := by
  rintro rfl
  cases h

theorem ne_nul_of_isSpace (h : isSpace c = true) : c ≠ '\x00' := by
  rintro rfl
  cases h

/-! ## Ends that read as one number -/

def isNonzeroDigit (c : Char) : Bool := c.isDigit && c ≠ '0'

/-- What `c` can be before `c'`: a plus sign or a zero stands right before a zero or `d`, and a blank or a plus
sign follows `d`. -/
def stands (d c c' : Char) : Bool :=
  isSpace c || ((c = '+' || c = '0') && (c' = '0' || c' = d)) || (c = d && (isSpace c' || c' = '+'))

/-- Blanks, plus signs, zeros and the digit `d`, which comes last. -/
def steady (d : Char) : Text → Bool
  | [] => false
  | [c] => c = d
  | c :: c' :: t => stands d c c' && steady d (c' :: t)

/-- Every end of the value but the empty one reads as `x`. -/
def EndsRead (x : Int) (v : Text) : Prop := ∀ s, s ≠ [] → s <:+ v → atoi (cstr s) = x

theorem endsRead_nil : EndsRead x [] := by
  intro s hs hsuffix
  exact absurd (List.suffix_nil.mp hsuffix) hs

theorem endsRead_cons : EndsRead x (c :: t) ↔ atoi (cstr (c :: t)) = x ∧ EndsRead x t := by
  constructor
  · intro h
    exact ⟨h _ (List.cons_ne_nil c t) (List.suffix_refl _),
      fun s hs hsuffix => h s hs (hsuffix.trans (List.suffix_cons c t))⟩
  · rintro ⟨hwhole, ht⟩ s hs hsuffix
    rcases List.suffix_cons_iff.mp hsuffix with rfl | hsuffix
    · exact hwhole
    · exact ht s hs hsuffix

/-! ### Zero -/

theorem numeral_digitsOf_zero (hs : ∀ c ∈ s, isNonzeroDigit c = false) : numeral (digitsOf s) = 0 := by
  have hdigits : IsDigits (digitsOf s) := fun c hc => List.mem_takeWhile_imp hc
  rw [numeral_eq_zero hdigits]
  intro c hc
  have hno := hs c (List.takeWhile_subset _ hc)
  simpa [isNonzeroDigit, hdigits c hc] using hno

theorem atoi_no_digit (hs : ∀ c ∈ s, isNonzeroDigit c = false) : atoi s = 0 := by
  have hdigit : ∀ {c t}, c.isDigit = true → (∀ e ∈ c :: t, isNonzeroDigit e = false) →
      numeral (c :: digitsOf t) = 0 := by
    intro c t hc hct
    have hzero := numeral_digitsOf_zero hct
    rwa [digitsOf, List.takeWhile_cons, if_pos hc] at hzero
  induction s with
  | nil => rfl
  | cons c t ih =>
      have ht := (List.forall_mem_cons.mp hs).2
      rcases first_cases c with hspace | hc | hsign | ⟨hspace, hplus, hminus, hother⟩
      · rw [atoi_space hspace, ih ht]
      · rw [atoi_digit hc, hdigit hc hs]
        rfl
      · rcases head_cases t with ⟨c', t', rfl, hc'⟩ | hnone
        · rcases hsign with rfl | rfl
          · rw [atoi_plus_digit hc', ih ht]
          · rw [atoi_minus_digit hc', hdigit hc' ht]
            rfl
        · exact atoi_sign_alone hsign hnone
      · exact atoi_other hspace hplus hminus hother

theorem no_digit_of_cstr (h : ∀ c ∈ v, isNonzeroDigit c = false) : ∀ c ∈ cstr v, isNonzeroDigit c = false :=
  fun c hc => h c (List.takeWhile_subset _ hc)

theorem endsRead_zero_iff : EndsRead 0 v ↔ ∀ c ∈ v, isNonzeroDigit c = false := by
  constructor
  · intro h
    induction v with
    | nil => exact fun c hc => absurd hc List.not_mem_nil
    | cons c t ih =>
        obtain ⟨hread, hrest⟩ := endsRead_cons.mp h
        have ht := ih hrest
        refine List.forall_mem_cons.mpr ⟨?_, ht⟩
        by_contra hno
        have hc : c.isDigit = true ∧ c ≠ '0' := by simpa [isNonzeroDigit] using hno
        -- the zeros that follow do not make it vanish
        rw [cstr_cons (ne_nul_of_isDigit hc.1), atoi_digit hc.1, numeral_cons,
          numeral_digitsOf_zero (no_digit_of_cstr ht)] at hread
        exact atoi_leading ((digitValue_eq_zero hc.1).not.mpr hc.2) (digit_eq hc.1).1 (Nat.zero_le 9) hread
  · intro h s _ hsuffix
    exact atoi_no_digit (no_digit_of_cstr fun c hc => h c (hsuffix.subset hc))

/-! ### Another digit -/

theorem digit_of_nonzero (hd : isNonzeroDigit d = true) :
    d.isDigit = true ∧ d ≠ '0' ∧ digitValue d ≠ 0 ∧ digitValue d ≤ 9 := by
  have h : d.isDigit = true ∧ d ≠ '0' := by simpa [isNonzeroDigit] using hd
  exact ⟨h.1, h.2, (digitValue_eq_zero h.1).not.mpr h.2, (digit_eq h.1).1⟩

theorem digitValue_inj (hc : c.isDigit = true) (hd : d.isDigit = true) (h : digitValue c = digitValue d) :
    c = d := by
  rw [(digit_eq hc).2, (digit_eq hd).2, h]

theorem toInt32_digitValue (hd : d.isDigit = true) : toInt32 (clampLong (digitValue d)) = digitValue d := by
  have hle := (digit_eq hd).1
  exact toInt32_clampLong (by omega)

theorem not_digit_of_blank (h : isSpace c = true ∨ c = '+') : c.isDigit = false := by
  rcases h with hspace | rfl
  · by_contra hdigit
    rw [isSpace_of_isDigit (by simpa using hdigit)] at hspace
    cases hspace
  · rfl

theorem steady_cons_cons {c' : Char} :
    steady d (c :: c' :: t) = true ↔ stands d c c' = true ∧ steady d (c' :: t) = true := by
  rw [steady, Bool.and_eq_true]

theorem steady_head (h : steady d (c :: t) = true) : isSpace c = true ∨ c = '+' ∨ c = '0' ∨ c = d := by
  cases t with
  | nil => exact Or.inr (Or.inr (Or.inr (by simpa [steady] using h)))
  | cons c' t =>
      have hstands := (steady_cons_cons.mp h).1
      simp only [stands, Bool.or_eq_true, Bool.and_eq_true, decide_eq_true_eq] at hstands
      tauto

theorem stands_of_nonzero (hd : isNonzeroDigit d = true) (c' : Char) : stands d d c' = true ↔
    isSpace c' = true ∨ c' = '+' := by
  obtain ⟨hdigit, hne, -⟩ := digit_of_nonzero hd
  have hplus : d ≠ '+' := by
    rintro rfl
    cases hdigit
  simp [stands, isSpace_of_isDigit hdigit, hne, hplus]

/-- The digits at its start are zeros and `d`. -/
theorem steady_digits (hd : isNonzeroDigit d = true) (hc : c = '0' ∨ c = d) (h : steady d (c :: t) = true) :
    ∃ k, digitsOf (c :: t) = List.replicate k '0' ++ [d] := by
  obtain ⟨hdigit, hne, -⟩ := digit_of_nonzero hd
  induction t generalizing c with
  | nil =>
      have heq : c = d := by simpa [steady] using h
      exact ⟨0, by simp [digitsOf, heq, hdigit]⟩
  | cons c' t ih =>
      obtain ⟨hstands, htail⟩ := steady_cons_cons.mp h
      rcases hc with rfl | rfl
      · have hzero : c' = '0' ∨ c' = d := by simpa [stands, hne.symm, isSpace] using hstands
        obtain ⟨k, hk⟩ := ih hzero htail
        refine ⟨k + 1, ?_⟩
        rw [digitsOf, List.takeWhile_cons, if_pos (by decide), ← digitsOf, hk]
        rfl
      · have hblank := (stands_of_nonzero hd c').mp hstands
        exact ⟨0, by simp [digitsOf, hdigit, not_digit_of_blank hblank]⟩

theorem nul_not_mem_steady (hd : isNonzeroDigit d = true) (h : steady d v = true) : '\x00' ∉ v := by
  have hdigit := (digit_of_nonzero hd).1
  induction v with
  | nil => cases h
  | cons c t ih =>
      rw [List.mem_cons, not_or]
      constructor
      · rintro rfl
        rcases steady_head h with hspace | hplus | hzero | rfl
        · cases hspace
        · cases hplus
        · cases hzero
        · cases hdigit
      · cases t with
        | nil => exact List.not_mem_nil
        | cons c' t => exact ih (steady_cons_cons.mp h).2

theorem numeral_zeros_digit (k : Nat) (d : Char) : numeral (List.replicate k '0' ++ [d]) = digitValue d := by
  rw [numeral_zeros_append, numeral_singleton]

theorem not_blank_of_digit (h : c.isDigit = true) : isSpace c = false ∧ c ≠ '+' ∧ c ≠ '-' := by
  refine ⟨isSpace_of_isDigit h, ?_, ?_⟩
  · rintro rfl
    cases h
  · rintro rfl
    cases h

theorem steady_head_digit (h : steady d (c :: t) = true) (hc : c.isDigit = true) : c = '0' ∨ c = d := by
  obtain ⟨hspace, hplus, -⟩ := not_blank_of_digit hc
  have hhead := steady_head h
  rw [hspace] at hhead
  tauto

theorem steady_head_blank (hd : d.isDigit = true) (h : steady d (c :: t) = true) (hc : c.isDigit = false) :
    (isSpace c = true ∨ c = '+') ∧ c ≠ '0' ∧ c ≠ d := by
  have hzero : c ≠ '0' := by
    rintro rfl
    cases hc
  have hne : c ≠ d := by
    rintro rfl
    rw [hd] at hc
    cases hc
  have hhead := steady_head h
  tauto

theorem atoi_stands_digit {c' : Char} (hd : isNonzeroDigit d = true) (h : steady d (c' :: t) = true)
    (hc : c.isDigit = true) : atoi (c :: c' :: t) = digitValue d ↔ stands d c c' = true := by
  obtain ⟨hdigit, hne, hpos, hle⟩ := digit_of_nonzero hd
  obtain ⟨hspace, hplus, -⟩ := not_blank_of_digit hc
  rw [atoi_digit hc]
  cases hc' : c'.isDigit with
  | true =>
      obtain ⟨hspace', hplus', -⟩ := not_blank_of_digit hc'
      have hhead := steady_head_digit h hc'
      obtain ⟨k, hk⟩ := steady_digits hd hhead h
      have hstands : stands d c c' = true ↔ c = '0' := by simp [stands, hspace, hplus, hspace', hplus', hhead]
      rw [hk, numeral_cons, numeral_zeros_digit, hstands]
      constructor
      · intro hread
        by_contra hzero
        exact atoi_leading ((digitValue_eq_zero hc).not.mpr hzero) (digit_eq hc).1 hle hread
      · rintro rfl
        rw [digitValue_zero, Nat.mul_zero, Nat.zero_add, toInt32_digitValue hdigit]
  | false =>
      obtain ⟨hblank, hzero, hne'⟩ := steady_head_blank hdigit h hc'
      have hstands : stands d c c' = true ↔ c = d := by simp [stands, hspace, hplus, hzero, hne', hblank]
      have hnone : digitsOf (c' :: t) = [] := by simp [digitsOf, hc']
      rw [hnone, numeral_singleton, toInt32_digitValue hc, hstands]
      constructor
      · intro hread
        exact digitValue_inj hc hdigit (by exact_mod_cast hread)
      · rintro rfl
        rfl

theorem atoi_stands_sign {c' : Char} (hd : isNonzeroDigit d = true) (h : steady d (c' :: t) = true)
    (hread : atoi (c' :: t) = digitValue d) (hc : c = '+' ∨ c = '-') :
    atoi (c :: c' :: t) = digitValue d ↔ stands d c c' = true := by
  obtain ⟨hdigit, -, hpos, hle⟩ := digit_of_nonzero hd
  obtain ⟨-, hplus, hminus⟩ := not_blank_of_digit hdigit
  cases hc' : c'.isDigit with
  | true =>
      have hhead := steady_head_digit h hc'
      obtain ⟨k, hk⟩ := steady_digits hd hhead h
      rcases hc with rfl | rfl
      · rw [atoi_plus_digit hc', hread]
        simp [stands, hhead]
      · have hdigits : digitsOf (c' :: t) = c' :: digitsOf t := by simp [digitsOf, hc']
        rw [atoi_minus_digit hc', ← hdigits, hk, numeral_zeros_digit, toInt32_clampLong_neg (by omega)]
        refine iff_of_false (by omega) ?_
        simp [stands, isSpace, hminus.symm]
  | false =>
      obtain ⟨-, hzero, hne'⟩ := steady_head_blank hdigit h hc'
      rw [atoi_sign_alone hc (by simpa using hc')]
      refine iff_of_false (by omega) ?_
      rcases hc with rfl | rfl
      · simp [stands, isSpace, hzero, hne', hplus.symm]
      · simp [stands, isSpace, hminus.symm]

/-- One more character at the start. -/
theorem atoi_stands {c' : Char} (hd : isNonzeroDigit d = true) (h : steady d (c' :: t) = true)
    (hread : atoi (c' :: t) = digitValue d) (c : Char) :
    atoi (c :: c' :: t) = digitValue d ↔ stands d c c' = true := by
  obtain ⟨hdigit, -, hpos, -⟩ := digit_of_nonzero hd
  rcases first_cases c with hspace | hc | hc | ⟨hspace, hplus, hminus, hother⟩
  · rw [atoi_space hspace, hread]
    simp [stands, hspace]
  · exact atoi_stands_digit hd h hc
  · exact atoi_stands_sign hd h hread hc
  · have hzero : c ≠ '0' := by
      rintro rfl
      cases hother
    have hne : c ≠ d := by
      rintro rfl
      rw [hdigit] at hother
      cases hother
    rw [atoi_other hspace hplus hminus hother]
    refine iff_of_false (by omega) ?_
    simp [stands, hspace, hplus, hzero, hne]

theorem atoi_single (h : c.isDigit = true) : atoi [c] = digitValue c := by
  rw [atoi_digit h, digitsOf, List.takeWhile_nil, numeral_singleton, toInt32_digitValue h]

theorem atoi_single_iff (hd : isNonzeroDigit d = true) (c : Char) : atoi [c] = digitValue d ↔ c = d := by
  obtain ⟨hdigit, -, hpos, -⟩ := digit_of_nonzero hd
  cases hc : c.isDigit with
  | true =>
      rw [atoi_single hc]
      constructor
      · intro heq
        exact digitValue_inj hc hdigit (by exact_mod_cast heq)
      · rintro rfl
        rfl
  | false =>
      have hzero : atoi [c] = 0 := atoi_no_digit (by simp [isNonzeroDigit, hc])
      rw [hzero]
      refine iff_of_false (by omega) ?_
      rintro rfl
      rw [hdigit] at hc
      cases hc

theorem atoi_steady (hd : isNonzeroDigit d = true) (h : steady d v = true) : atoi v = digitValue d := by
  induction v with
  | nil => cases h
  | cons c t ih =>
      cases t with
      | nil => exact (atoi_single_iff hd c).mpr (by simpa [steady] using h)
      | cons c' t =>
          obtain ⟨hstands, htail⟩ := steady_cons_cons.mp h
          exact (atoi_stands hd htail (ih htail) c).mpr hstands

/-- A NUL starts no number either. -/
theorem atoi_cstr_cons (ht : '\x00' ∉ t) (c : Char) : atoi (cstr (c :: t)) = atoi (c :: t) := by
  by_cases hc : c = '\x00'
  · subst hc
    exact (atoi_other rfl (by decide) (by decide) rfl).symm
  · rw [cstr_cons hc, cstr_eq_self.mpr ht]

theorem endsRead_digit_iff (hd : isNonzeroDigit d = true) (hv : v ≠ []) :
    EndsRead (digitValue d) v ↔ steady d v = true := by
  induction v with
  | nil => exact absurd rfl hv
  | cons c t ih =>
      rw [endsRead_cons]
      cases t with
      | nil =>
          rw [atoi_cstr_cons List.not_mem_nil, atoi_single_iff hd, and_iff_left endsRead_nil]
          simp [steady]
      | cons c' t =>
          rw [ih (List.cons_ne_nil _ _), steady_cons_cons]
          apply and_congr_left
          intro htail
          rw [atoi_cstr_cons (nul_not_mem_steady hd htail)]
          exact atoi_stands hd htail (atoi_steady hd htail) c

/-- No digit of the value is other than zero, or all its ends read as the same digit. -/
def OneNumber (v : Text) : Prop :=
  (∀ c ∈ v, isNonzeroDigit c = false) ∨ ∃ d, isNonzeroDigit d = true ∧ steady d v = true

theorem endsRead_whole_iff : EndsRead (atoi (cstr v)) v ↔ OneNumber v := by
  by_cases hv : v = []
  · subst hv
    exact iff_of_true endsRead_nil (Or.inl fun c hc => absurd hc List.not_mem_nil)
  constructor
  · intro h
    -- the last character alone is one of the ends
    have hsuffix : [v.getLast hv] <:+ v :=
      List.singleton_suffix_iff_getLast?_eq_some.mpr (List.getLast?_eq_some_getLast hv)
    have hlast := h _ (List.cons_ne_nil _ _) hsuffix
    rw [atoi_cstr_cons List.not_mem_nil] at hlast
    cases hd : isNonzeroDigit (v.getLast hv) with
    | true =>
        rw [(atoi_single_iff hd _).mpr rfl] at hlast
        rw [← hlast, endsRead_digit_iff hd hv] at h
        exact Or.inr ⟨_, hd, h⟩
    | false =>
        rw [atoi_no_digit (by simpa using hd)] at hlast
        rw [← hlast, endsRead_zero_iff] at h
        exact Or.inl h
  · rintro (hzero | ⟨d, hd, hsteady⟩)
    · rw [atoi_no_digit (no_digit_of_cstr hzero)]
      exact endsRead_zero_iff.mpr hzero
    · rw [cstr_eq_self.mpr (nul_not_mem_steady hd hsteady), atoi_steady hd hsteady]
      exact (endsRead_digit_iff hd hv).mpr hsteady

example : steady '5' " 05+5".toList = true ∧ steady '5' "55".toList = false := by decide

end Tle.Web
