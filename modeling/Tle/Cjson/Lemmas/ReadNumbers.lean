import Tle.Cjson.Lemmas.Reading
import Tle.Cjson.Lemmas.Values

/-!
# What `parse_number` makes of a numeral of the grammar
-/

namespace Tle.Cjson
open Tle.Lib Tle.Lib.Comp Tle.Lib.JsonText

variable {t rest : Text} {c : Char}

/-- What follows a numeral does not go on with it. -/
def Apart (rest : Text) : Prop := ∀ c, rest.head? = some c → isNumberByte c = false

theorem isNumberByte_of_isDigit (h : c.isDigit = true) : isNumberByte c = true := by simp [isNumberByte, h]

theorem ne_of_isDigit (h : c.isDigit = true) : c ≠ '-' ∧ c ≠ '+' ∧ c ≠ '.' ∧ c ≠ 'e' ∧ c ≠ 'E' := by
  refine ⟨?_, ?_, ?_, ?_, ?_⟩ <;>
  · intro hc
    rw [hc] at h
    cases h

theorem digits_head {ds : Text} (h : Digits ds) : ∃ c ds', ds = c :: ds' ∧ c.isDigit = true := by
  obtain ⟨hne, hall⟩ := h
  cases ds with
  | nil => exact absurd rfl hne
  | cons c ds => exact ⟨c, ds, rfl, hall c List.mem_cons_self⟩

theorem signLength_of_digits {ds : Text} (h : Digits ds) (rest : Text) : signLength (ds ++ rest) = 0 := by
  obtain ⟨c, ds', rfl, hc⟩ := digits_head h
  obtain ⟨hminus, hplus, -⟩ := ne_of_isDigit hc
  simp [signLength, hminus, hplus]

/-- A sign before digits. -/
theorem signLength_sign {sign ds : Text} (hsign : sign = [] ∨ sign = ['-'] ∨ sign = ['+']) (hds : Digits ds)
    (rest : Text) : signLength (sign ++ (ds ++ rest)) = sign.length := by
  rcases hsign with rfl | rfl | rfl
  · exact signLength_of_digits hds rest
  · simp [signLength]
  · simp [signLength]

theorem exponentLength_exponent {exponent : Text} (h : Exponent exponent) :
    exponentLength exponent = exponent.length := by
  cases h with
  | none => rfl
  | some e sign digits he hsign hdigits =>
      have hlength : signLength (sign ++ digits) = sign.length := by
        simpa using signLength_sign hsign hdigits []
      have htake : ((sign ++ digits).drop (signLength (sign ++ digits))).takeWhile Char.isDigit = digits := by
        rw [hlength, List.drop_left]
        have hnil : (digits ++ []).takeWhile Char.isDigit = digits :=
          takeWhile_isDigit_append hdigits.2 fun c hc => by cases hc
        simpa using hnil
      rw [exponentLength, htake, if_pos ⟨he, hdigits.1⟩, hlength, List.length_cons, List.length_append]
      omega

theorem exponent_head {exponent : Text} (h : Exponent exponent) : ∀ c, exponent.head? = some c → c.isDigit = false := by
  cases h with
  | none =>
      intro c hc
      cases hc
  | some e sign digits he =>
      intro c hc
      cases hc
      rcases he with rfl | rfl <;> rfl

theorem fraction_head {fraction exponent : Text} (h : Fraction fraction) (h' : Exponent exponent) :
    ∀ c, (fraction ++ exponent).head? = some c → c.isDigit = false := by
  cases h with
  | none => exact exponent_head h'
  | some digits =>
      intro c hc
      cases hc
      rfl

/-- The fraction, and where it ends. -/
theorem fraction_length {fraction exponent : Text} (h : Fraction fraction) (h' : Exponent exponent) :
    (if (fraction ++ exponent).head? = some '.' then 1 else 0) + (fractionDigits (fraction ++ exponent)).length =
      fraction.length := by
  cases h with
  | none =>
      cases h' with
      | none => rfl
      | some e sign digits he =>
          rcases he with rfl | rfl <;> rfl
  | some digits hdigits =>
      have htake := takeWhile_isDigit_append hdigits.2 (exponent_head h')
      simp only [List.cons_append, List.head?_cons, if_pos, fractionDigits, htake, List.length_cons]
      omega

/-- `strtod` reads a numeral to its end. -/
theorem decimalLength_numeral (h : Numeral t) : decimalLength t = t.length := by
  obtain ⟨sign, whole, fraction, exponent, hsign, hwhole, hfraction, hexponent⟩ := h
  have hsign' : signLength (sign ++ (whole ++ (fraction ++ exponent))) = sign.length := by
    refine signLength_sign ?_ hwhole.1 _
    rcases hsign with h | h
    · exact Or.inl h
    · exact Or.inr (Or.inl h)
  have htake : (whole ++ (fraction ++ exponent)).takeWhile Char.isDigit = whole :=
    takeWhile_isDigit_append hwhole.1.2 (fraction_head hfraction hexponent)
  have hrest : (sign ++ (whole ++ (fraction ++ exponent))).drop (sign.length + whole.length) =
      fraction ++ exponent := by
    rw [← List.drop_drop, List.drop_left, List.drop_left]
  have hpoint := fraction_length hfraction hexponent
  unfold decimalLength
  rw [hsign', List.drop_left, htake]
  simp only
  rw [hrest, if_neg (fun hnil => hwhole.1.1 hnil.1), hpoint, List.drop_left, exponentLength_exponent hexponent]
  simp only [List.length_append]
  omega

theorem isNumberByte_digits {ds : Text} (h : Digits ds) : ∀ c ∈ ds, isNumberByte c = true :=
  fun c hc => isNumberByte_of_isDigit (h.2 c hc)

theorem isNumberByte_numeral (h : Numeral t) : ∀ c ∈ t, isNumberByte c = true := by
  obtain ⟨sign, whole, fraction, exponent, hsign, hwhole, hfraction, hexponent⟩ := h
  intro c hc
  simp only [List.mem_append] at hc
  rcases hc with hc | hc | hc | hc
  · rcases hsign with rfl | rfl
    · cases hc
    · rw [List.mem_singleton.mp hc]
      decide
  · exact isNumberByte_digits hwhole.1 c hc
  · cases hfraction with
    | none => cases hc
    | some digits hdigits =>
        rcases List.mem_cons.mp hc with rfl | hc
        · decide
        · exact isNumberByte_digits hdigits c hc
  · cases hexponent with
    | none => cases hc
    | some e sign digits he hsign hdigits =>
        rcases List.mem_cons.mp hc with rfl | hc
        · rcases he with rfl | rfl <;> decide
        · rcases List.mem_append.mp hc with hc | hc
          · rcases hsign with rfl | rfl | rfl
            · cases hc
            · rw [List.mem_singleton.mp hc]
              decide
            · rw [List.mem_singleton.mp hc]
              decide
          · exact isNumberByte_digits hdigits c hc

theorem numeral_ne_nil (h : Numeral t) : t ≠ [] := by
  obtain ⟨sign, whole, fraction, exponent, -, hwhole, -, -⟩ := h
  simp [hwhole.1.1]

/-- The copy for `strtod` is the numeral. -/
theorem numberText_numeral {content : Text} {o : Nat} (h : Numeral t) (hlength : t.length ≤ 63)
    (hdrop : content.drop o = t ++ rest) (hrest : Apart rest) : numberText content o = t := by
  rw [numberText, hdrop, List.take_append, List.take_of_length_le hlength,
    List.takeWhile_append_of_pos (isNumberByte_numeral h)]
  have hnil : (rest.take (63 - t.length)).takeWhile isNumberByte = [] := by
    cases rest with
    | nil => simp
    | cons c rest =>
        cases 63 - t.length with
        | zero => rfl
        | succ n => simp [hrest c rfl]
  rw [hnil, List.append_nil]

end Tle.Cjson
