import Tle.Lib.Scan

/-!
# What the scanners read

By the first character of the text.
-/

namespace Tle.Lib

variable {c : Char} {s t ds : Text} {n : Nat}

/-! ## Digits -/

def digitValue (c : Char) : Nat := c.toNat - '0'.toNat

/-- The number that digits stand for. -/
def numeral (ds : Text) : Nat := Nat.ofDigitChars 10 ds 0

def IsDigits (ds : Text) : Prop := ∀ c ∈ ds, c.isDigit = true

theorem digit_eq (h : c.isDigit = true) : digitValue c ≤ 9 ∧ c = (digitValue c).digitChar := by
  simp only [Char.isDigit, Bool.and_eq_true, decide_eq_true_eq, ge_iff_le, UInt32.le_iff_toNat_le] at h
  have hpos : '0'.toNat ≤ c.toNat := h.1
  have hle : c.toNat - '0'.toNat ≤ 9 := Nat.sub_le_of_le_add h.2
  have hall : ∀ d ∈ List.range 10, Char.ofNat ('0'.toNat + d) = d.digitChar := by decide
  have hdigit := hall (c.toNat - '0'.toNat) (List.mem_range.mpr (by omega))
  rw [Nat.add_sub_cancel' hpos, Char.ofNat_toNat] at hdigit
  exact ⟨hle, hdigit⟩

theorem digitValue_zero : digitValue '0' = 0 := rfl

theorem digitValue_eq_zero (h : c.isDigit = true) : digitValue c = 0 ↔ c = '0' := by
  constructor
  · intro hzero
    have heq := (digit_eq h).2
    rw [hzero] at heq
    exact heq
  · rintro rfl
    rfl

theorem numeral_cons (c : Char) (ds : Text) :
    numeral (c :: ds) = 10 ^ ds.length * digitValue c + numeral ds := by
  rw [numeral, Nat.ofDigitChars_cons, Nat.ofDigitChars_eq_ofDigitChars_zero]
  simp [digitValue, numeral]

theorem numeral_concat (ds : Text) (c : Char) : numeral (ds ++ [c]) = 10 * numeral ds + digitValue c := by
  simp [numeral, Nat.ofDigitChars_append, Nat.ofDigitChars_cons, digitValue]

theorem numeral_singleton (c : Char) : numeral [c] = digitValue c := by
  rw [numeral_cons, List.length_nil, Nat.pow_zero, Nat.one_mul]
  rfl

theorem numeral_zeros_append (k : Nat) (ds : Text) : numeral (List.replicate k '0' ++ ds) = numeral ds := by
  simp [numeral, Nat.ofDigitChars_append]

theorem numeral_eq_zero (h : IsDigits ds) : numeral ds = 0 ↔ ∀ c ∈ ds, c = '0' := by
  induction ds with
  | nil => simp [numeral]
  | cons c ds ih =>
      rw [IsDigits, List.forall_mem_cons] at h
      rw [numeral_cons, List.forall_mem_cons, Nat.add_eq_zero_iff, ih h.2, ← digitValue_eq_zero h.1]
      simp

/-! ## Numbers at the start of a text -/

/-- The kinds of characters that a number can start with. -/
theorem first_cases (c : Char) : isSpace c = true ∨ c.isDigit = true ∨ (c = '+' ∨ c = '-') ∨
    (isSpace c = false ∧ c ≠ '+' ∧ c ≠ '-' ∧ c.isDigit = false) := by
  cases hspace : isSpace c with
  | true => exact Or.inl rfl
  | false =>
      cases hdigit : c.isDigit with
      | true => exact Or.inr (Or.inl rfl)
      | false => exact Or.inr (Or.inr (by tauto))

theorem head_cases (t : Text) : (∃ c t', t = c :: t' ∧ c.isDigit = true) ∨
    ∀ c, t.head? = some c → c.isDigit = false := by
  cases t with
  | nil => exact Or.inr (by simp)
  | cons c t' =>
      cases hdigit : c.isDigit with
      | true => exact Or.inl ⟨c, t', rfl, hdigit⟩
      | false => exact Or.inr (by simpa using hdigit)

def digitsOf (s : Text) : Text := s.takeWhile Char.isDigit

theorem scanNat_of_digit (h : c.isDigit = true) : scanNat (c :: t) = some (numeral (c :: digitsOf t)) := by
  simp [scanNat, h, numeral, digitsOf]

theorem scanNat_of_not (h : ∀ c, s.head? = some c → c.isDigit = false) : scanNat s = none := by
  cases s with
  | nil => rfl
  | cons c t => simp [scanNat, h c rfl]

theorem scanInt_space (h : isSpace c = true) : scanInt (c :: t) = scanInt t := by
  simp [scanInt, h]

theorem scanInt_plus : scanInt ('+' :: t) = (scanNat t).map (fun n => (n : Int)) := rfl

theorem scanInt_minus : scanInt ('-' :: t) = (scanNat t).map (fun n => -(n : Int)) := rfl

theorem scanInt_digit (h : c.isDigit = true) : scanInt (c :: t) = some (numeral (c :: digitsOf t) : Int) := by
  have hdrop : (c :: t).dropWhile isSpace = c :: t := by simp [isSpace_of_isDigit h]
  have hnat := scanNat_of_digit (t := t) h
  unfold scanInt
  rw [hdrop]
  split
  · rename_i heq
    cases heq
    cases h
  · rename_i heq
    cases heq
    cases h
  · rw [hnat]
    rfl

/-- Any other character starts no number. -/
theorem scanInt_other (hspace : isSpace c = false) (hplus : c ≠ '+') (hminus : c ≠ '-')
    (hdigit : c.isDigit = false) : scanInt (c :: t) = none := by
  have hdrop : (c :: t).dropWhile isSpace = c :: t := by simp [hspace]
  have hnat : scanNat (c :: t) = none := scanNat_of_not (by simpa using hdigit)
  unfold scanInt
  rw [hdrop]
  split
  · rename_i heq
    exact absurd (List.cons.inj heq).1 hminus
  · rename_i heq
    exact absurd (List.cons.inj heq).1 hplus
  · rw [hnat]
    rfl

/-! ## `strtol` as an `int` -/

theorem atoi_eq (s : Text) : atoi s = (scanInt s).elim 0 fun z => toInt32 (clampLong z) := by
  rw [atoi, scanD]
  cases scanInt s <;> rfl

theorem atoi_space (h : isSpace c = true) : atoi (c :: t) = atoi t := by
  rw [atoi_eq, atoi_eq, scanInt_space h]

theorem atoi_digit (h : c.isDigit = true) :
    atoi (c :: t) = toInt32 (clampLong (numeral (c :: digitsOf t))) := by
  rw [atoi_eq, scanInt_digit h]
  rfl

theorem atoi_plus_digit (h : c.isDigit = true) : atoi ('+' :: c :: t) = atoi (c :: t) := by
  rw [atoi_eq, atoi_eq, scanInt_plus, scanNat_of_digit h, scanInt_digit h]
  rfl

theorem atoi_minus_digit (h : c.isDigit = true) :
    atoi ('-' :: c :: t) = toInt32 (clampLong (-(numeral (c :: digitsOf t) : Int))) := by
  rw [atoi_eq, scanInt_minus, scanNat_of_digit h]
  rfl

/-- A sign that no digit follows. -/
theorem atoi_sign_alone (hsign : c = '+' ∨ c = '-') (h : ∀ c, t.head? = some c → c.isDigit = false) :
    atoi (c :: t) = 0 := by
  rcases hsign with rfl | rfl
  · rw [atoi_eq, scanInt_plus, scanNat_of_not h]
    rfl
  · rw [atoi_eq, scanInt_minus, scanNat_of_not h]
    rfl

theorem atoi_other (hspace : isSpace c = false) (hplus : c ≠ '+') (hminus : c ≠ '-')
    (hdigit : c.isDigit = false) : atoi (c :: t) = 0 := by
  rw [atoi_eq, scanInt_other hspace hplus hminus hdigit]
  rfl

theorem toInt32_clampLong_neg {k : Nat} (hk : k ≤ 2 ^ 31) : toInt32 (clampLong (-k)) = -k := by
  have hclamp : clampLong (-k) = -k := by
    unfold clampLong
    omega
  rw [hclamp, toInt32, BitVec.toInt_ofInt]
  exact Int.bmod_eq_of_le (by omega) (by omega)

/-- A leading digit other than zero is not lost, whether the number wraps or saturates. -/
theorem atoi_leading {e k m : Nat} (he : e ≠ 0) (he' : e ≤ 9) (hm : m ≤ 9) :
    toInt32 (clampLong ((10 ^ k * e + m : Nat) : Int)) ≠ m := by
  intro heq
  by_cases hk : k ≤ 18
  · have hpow : 10 ^ k ≤ 10 ^ 18 := Nat.pow_le_pow_right (by decide) hk
    have hle : 10 ^ k * e ≤ 10 ^ 18 * 9 := Nat.mul_le_mul hpow he'
    have hclamp : clampLong ((10 ^ k * e + m : Nat) : Int) = ((10 ^ k * e + m : Nat) : Int) := by
      generalize 10 ^ k * e = x at hle
      unfold clampLong
      omega
    rw [hclamp, toInt32, BitVec.toInt_ofInt] at heq
    have hdvd : 2 ^ 32 ∣ 10 ^ k * e := by
      have hmod : Int.bmod ((10 ^ k * e + m : Nat) : Int) (2 ^ 32) % (2 ^ 32 : Nat) = m % (2 ^ 32 : Nat) := by
        rw [heq]
      rw [Int.bmod_emod] at hmod
      omega
    have hsplit : 10 ^ 18 * e = 2 ^ 18 * (5 ^ 18 * e) := by
      rw [← Nat.mul_assoc, ← Nat.mul_pow]
    have hdvd' : 2 ^ 18 * 2 ^ 14 ∣ 2 ^ 18 * (5 ^ 18 * e) := by
      rw [← Nat.pow_add, ← hsplit]
      exact hdvd.trans (Nat.mul_dvd_mul_right (Nat.pow_dvd_pow 10 hk) e)
    have hcoprime : Nat.Coprime (2 ^ 14) (5 ^ 18) := Nat.Coprime.pow 14 18 (by decide)
    have hdvd'' := hcoprime.dvd_of_dvd_mul_left (Nat.dvd_of_mul_dvd_mul_left (by decide) hdvd')
    have hlarge := Nat.le_of_dvd (Nat.pos_of_ne_zero he) hdvd''
    exact absurd (hlarge.trans he') (by decide)
  · have hpow : 10 ^ 19 ≤ 10 ^ k := Nat.pow_le_pow_right (by decide) (by omega)
    have hle : 10 ^ 19 ≤ 10 ^ k * e := hpow.trans (Nat.le_mul_of_pos_right _ (by omega))
    have hclamp : clampLong ((10 ^ k * e + m : Nat) : Int) = 2 ^ 63 - 1 := by
      generalize 10 ^ k * e = x at hle
      unfold clampLong
      omega
    rw [hclamp] at heq
    have hminus : toInt32 (2 ^ 63 - 1) = -1 := by decide
    omega

/-! ## `strtoul` of a whole text -/

theorem strtoulWhole_space (h : isSpace c = true) : strtoulWhole (c :: t) = strtoulWhole t := by
  simp [strtoulWhole, strtoul, scanInt_space h, h]

theorem digitsOf_eq_self (h : IsDigits ds) : digitsOf ds = ds := List.takeWhile_eq_self_iff.mpr h

theorem strtoulWhole_digit (h : c.isDigit = true) : strtoulWhole (c :: t) =
    if t.all Char.isDigit then some (wrapUlong (numeral (c :: t))) else none := by
  have hdrop : (c :: t).dropWhile isSpace = c :: t := by simp [isSpace_of_isDigit h]
  unfold strtoulWhole
  rw [hdrop]
  split
  · rename_i heq
    cases heq
    cases h
  · rename_i heq
    cases heq
    cases h
  · cases hall : t.all Char.isDigit with
    | true =>
        have hnumber : strtoul (c :: t) = wrapUlong (numeral (c :: t)) := by
          rw [strtoul, scanInt_digit h, digitsOf_eq_self (List.all_eq_true.mp hall)]
          rfl
        simp [h, hall, hnumber]
    | false => simp [hall]

theorem scanNat_of_digits (hne : ds ≠ []) (h : IsDigits ds) : scanNat ds = some (numeral ds) := by
  cases ds with
  | nil => exact absurd rfl hne
  | cons c ds =>
      rw [IsDigits, List.forall_mem_cons] at h
      rw [scanNat_of_digit h.1, digitsOf_eq_self h.2]

theorem strtoulWhole_plus : strtoulWhole ('+' :: t) =
    if t ≠ [] ∧ t.all Char.isDigit then some (wrapUlong (numeral t)) else none := by
  have hwhole : strtoulWhole ('+' :: t) =
      if t ≠ [] ∧ t.all Char.isDigit then some (strtoul ('+' :: t)) else none := rfl
  rw [hwhole]
  split
  · rename_i hall
    rw [strtoul, scanInt_plus, scanNat_of_digits hall.1 (List.all_eq_true.mp hall.2)]
    rfl
  · rfl

theorem strtoulWhole_minus : strtoulWhole ('-' :: t) =
    if t ≠ [] ∧ t.all Char.isDigit then some (wrapUlong (-(numeral t : Int))) else none := by
  have hwhole : strtoulWhole ('-' :: t) =
      if t ≠ [] ∧ t.all Char.isDigit then some (strtoul ('-' :: t)) else none := rfl
  rw [hwhole]
  split
  · rename_i hall
    rw [strtoul, scanInt_minus, scanNat_of_digits hall.1 (List.all_eq_true.mp hall.2)]
    rfl
  · rfl

theorem strtoulWhole_other (hspace : isSpace c = false) (hplus : c ≠ '+') (hminus : c ≠ '-')
    (hdigit : c.isDigit = false) : strtoulWhole (c :: t) = none := by
  have hdrop : (c :: t).dropWhile isSpace = c :: t := by simp [hspace]
  unfold strtoulWhole
  rw [hdrop]
  split
  · rename_i heq
    exact absurd (List.cons.inj heq).1 hminus
  · rename_i heq
    exact absurd (List.cons.inj heq).1 hplus
  · simp [hdigit]

theorem wrapUlong_lt_iff (n : Nat) : wrapUlong n < 2 ^ 32 ↔ n < 2 ^ 32 := by
  unfold wrapUlong
  split <;> omega

theorem wrapUlong_eq (h : n < 2 ^ 32) : wrapUlong n = n := by
  unfold wrapUlong
  split <;> omega

/-- A negative number that wraps to a small one. -/
theorem wrapUlong_neg_lt_iff (n : Nat) :
    wrapUlong (-(n : Int)) < 2 ^ 32 ↔ n = 0 ∨ 2 ^ 64 - 2 ^ 32 < n ∧ n < 2 ^ 64 := by
  unfold wrapUlong
  split <;> omega

/-! ## Numbers with a sign -/

/-- White space, a sign that may be missing if it is a plus, and digits that stand for `m`. -/
structure IsNumber (negative : Bool) (m : Nat) (s : Text) : Prop where
  parts : ∃ blanks sign digits, s = blanks ++ (sign ++ digits) ∧ (∀ c ∈ blanks, isSpace c = true) ∧
    (if negative then sign = ['-'] else sign = [] ∨ sign = ['+']) ∧ digits ≠ [] ∧ IsDigits digits ∧
    numeral digits = m

def signed (negative : Bool) (m : Nat) : Int := if negative then -(m : Int) else m

variable {negative : Bool} {m : Nat}

theorem natAbs_signed : (signed negative m).natAbs = m := by
  cases negative <;> simp [signed]

theorem isNumber_digits (hne : ds ≠ []) (h : IsDigits ds) : IsNumber false (numeral ds) ds :=
  ⟨[], [], ds, rfl, nofun, Or.inl rfl, hne, h, rfl⟩

theorem IsNumber.space (h : IsNumber negative m t) (hc : isSpace c = true) : IsNumber negative m (c :: t) := by
  obtain ⟨blanks, sign, digits, rfl, hblanks, hrest⟩ := h
  exact ⟨c :: blanks, sign, digits, rfl, List.forall_mem_cons.mpr ⟨hc, hblanks⟩, hrest⟩

/-- By the first character. -/
theorem IsNumber.first (h : IsNumber negative m s) :
    (∃ c t, s = c :: t ∧ isSpace c = true ∧ IsNumber negative m t) ∨
    (∃ ds, ds ≠ [] ∧ IsDigits ds ∧ numeral ds = m ∧
      (negative = true ∧ s = '-' :: ds ∨ negative = false ∧ (s = ds ∨ s = '+' :: ds))) := by
  obtain ⟨blanks, sign, ds, rfl, hblanks, hsign, hne, hdigits, hm⟩ := h
  cases blanks with
  | cons c blanks =>
      rw [List.forall_mem_cons] at hblanks
      exact Or.inl ⟨c, _, rfl, hblanks.1, blanks, sign, ds, rfl, hblanks.2, hsign, hne, hdigits, hm⟩
  | nil =>
      refine Or.inr ⟨ds, hne, hdigits, hm, ?_⟩
      cases negative with
      | true =>
          rw [if_pos rfl] at hsign
          rw [hsign]
          exact Or.inl ⟨rfl, rfl⟩
      | false =>
          rw [if_neg Bool.false_ne_true] at hsign
          rcases hsign with rfl | rfl
          · exact Or.inr ⟨rfl, Or.inl rfl⟩
          · exact Or.inr ⟨rfl, Or.inr rfl⟩

theorem strtoulWhole_digits (hne : ds ≠ []) (h : IsDigits ds) :
    strtoulWhole ds = some (wrapUlong (numeral ds)) := by
  cases ds with
  | nil => exact absurd rfl hne
  | cons c ds =>
      rw [IsDigits, List.forall_mem_cons] at h
      rw [strtoulWhole_digit h.1, if_pos (List.all_eq_true.mpr h.2)]

theorem scanInt_digits (hne : ds ≠ []) (h : IsDigits ds) : scanInt ds = some (numeral ds : Int) := by
  cases ds with
  | nil => exact absurd rfl hne
  | cons c ds =>
      rw [IsDigits, List.forall_mem_cons] at h
      rw [scanInt_digit h.1, digitsOf_eq_self h.2]

/-- What the scanners make of a number. -/
theorem IsNumber.scan (h : IsNumber negative m s) :
    scanInt s = some (signed negative m) ∧ strtoulWhole s = some (wrapUlong (signed negative m)) := by
  induction s with
  | nil =>
      obtain ⟨c, t, heq, -⟩ | ⟨ds, hne, -, -, ⟨-, heq⟩ | ⟨-, heq | heq⟩⟩ := h.first
      · cases heq
      · cases heq
      · exact absurd heq.symm hne
      · cases heq
  | cons c t ih =>
      obtain ⟨c', t', heq, hspace, ht⟩ | ⟨ds, hne, hdigits, hm, hsign⟩ := h.first
      · cases heq
        rw [scanInt_space hspace, strtoulWhole_space hspace]
        exact ih ht
      · have hall : ds ≠ [] ∧ ds.all Char.isDigit = true := ⟨hne, List.all_eq_true.mpr hdigits⟩
        subst hm
        obtain ⟨rfl, heq⟩ | ⟨rfl, heq | heq⟩ := hsign
        · rw [heq, scanInt_minus, strtoulWhole_minus, if_pos hall, scanNat_of_digits hne hdigits]
          exact ⟨rfl, rfl⟩
        · rw [heq, scanInt_digits hne hdigits, strtoulWhole_digits hne hdigits]
          exact ⟨rfl, rfl⟩
        · rw [heq, scanInt_plus, strtoulWhole_plus, if_pos hall, scanNat_of_digits hne hdigits]
          exact ⟨rfl, rfl⟩

/-- `strtoul` converts the whole of a text only if it is a number. -/
theorem isNumber_of_strtoulWhole {v : Nat} (h : strtoulWhole s = some v) : ∃ negative m, IsNumber negative m s := by
  induction s with
  | nil => cases h
  | cons c t ih =>
      rcases first_cases c with hspace | hdigit | hsign | ⟨hspace, hplus, hminus, hother⟩
      · rw [strtoulWhole_space hspace] at h
        obtain ⟨negative, m, hnumber⟩ := ih h
        exact ⟨negative, m, hnumber.space hspace⟩
      · rw [strtoulWhole_digit hdigit] at h
        split at h
        · rename_i hall
          exact ⟨false, _, isNumber_digits (List.cons_ne_nil c t)
            (List.forall_mem_cons.mpr ⟨hdigit, List.all_eq_true.mp hall⟩)⟩
        · cases h
      · rcases hsign with rfl | rfl
        · rw [strtoulWhole_plus] at h
          split at h
          · rename_i hall
            exact ⟨false, _, [], ['+'], t, rfl, nofun, Or.inr rfl, hall.1, List.all_eq_true.mp hall.2, rfl⟩
          · cases h
        · rw [strtoulWhole_minus] at h
          split at h
          · rename_i hall
            exact ⟨true, _, [], ['-'], t, rfl, nofun, rfl, hall.1, List.all_eq_true.mp hall.2, rfl⟩
          · cases h
      · rw [strtoulWhole_other hspace hplus hminus hother] at h
        cases h

theorem IsNumber.minus_mem_iff (h : IsNumber negative m s) : '-' ∈ s ↔ negative = true := by
  obtain ⟨blanks, sign, ds, rfl, hblanks, hsign, -, hdigits, -⟩ := h
  have hno : '-' ∉ blanks ∧ '-' ∉ ds :=
    ⟨fun hmem => absurd (hblanks _ hmem) (by decide), fun hmem => absurd (hdigits _ hmem) (by decide)⟩
  rw [List.mem_append, List.mem_append, or_iff_right hno.1, or_iff_left hno.2]
  cases negative with
  | true =>
      rw [if_pos rfl] at hsign
      simp [hsign]
  | false =>
      rw [if_neg Bool.false_ne_true] at hsign
      rcases hsign with rfl | rfl <;> decide

/-- A text has one sign and one value. -/
theorem IsNumber.unique {negative' : Bool} {m' : Nat} (h : IsNumber negative m s) (h' : IsNumber negative' m' s) :
    negative = negative' ∧ m = m' := by
  have hsign : negative = negative' := Bool.eq_iff_iff.mpr (h.minus_mem_iff.symm.trans h'.minus_mem_iff)
  have hvalue := Option.some.inj (h.scan.1.symm.trans h'.scan.1)
  subst hsign
  refine ⟨rfl, ?_⟩
  unfold signed at hvalue
  split at hvalue <;> omega

theorem IsNumber.strtoul (h : IsNumber negative m s) : strtoul s = wrapUlong (signed negative m) := by
  rw [Lib.strtoul, h.scan.1]
  rfl

/-- Printing gives a number without a sign. -/
theorem isNumber_formatUnsigned (n : Nat) : IsNumber false n (formatUnsigned n) := by
  have hdigits : IsDigits (formatUnsigned n) := fun c hc => isDigit_of_mem_formatUnsigned hc
  have hvalue : numeral (formatUnsigned n) = n := Nat.ofDigitChars_ten_toDigits
  have hnumber : IsNumber false (numeral (formatUnsigned n)) (formatUnsigned n) :=
    isNumber_digits Nat.toDigits_ne_nil hdigits
  rwa [hvalue] at hnumber

end Tle.Lib
