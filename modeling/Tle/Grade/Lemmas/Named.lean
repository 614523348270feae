import Tle.Grade.Lemmas.Scoring
import Tle.Lib.Numerals

/-!
# The cases that the messages of a run name

A message names its own case or none, but for a jury whose two bytes are a `#` and a digit.
-/

namespace Tle.Grade
open Tle.Lib

variable {task : Task} {j k : Nat}

/-! ## The number in a message -/

theorem scanInt_single {c : Char} {z : Int} (h : scanInt [c] = some z) :
    ∃ v : Nat, z = v ∧ v ≤ 9 ∧ c = v.digitChar := by
  rcases first_cases c with hspace | hdigit | hsign | ⟨hspace, hplus, hminus, hother⟩
  · rw [scanInt_space hspace] at h
    cases h
  · rw [scanInt_digit hdigit, digitsOf, List.takeWhile_nil, numeral_singleton, Option.some.injEq] at h
    exact ⟨digitValue c, h.symm, digit_eq hdigit⟩
  · rcases hsign with rfl | rfl
    · cases h
    · cases h
  · rw [scanInt_other hspace hplus hminus hother] at h
    cases h

theorem scanU_single {c : Char} {v : Nat} (h : scanU [c] = some v) : v ≤ 9 ∧ c = v.digitChar := by
  obtain ⟨z, hz, rfl⟩ := Option.map_eq_some_iff.mp h
  obtain ⟨u, rfl, hle, hc⟩ := scanInt_single hz
  have hwrap : wrapUlong u % 2 ^ 32 = u := by
    unfold wrapUlong
    split <;> omega
  rw [hwrap]
  exact ⟨hle, hc⟩

/-- What the two bytes of a jury can name. -/
theorem scanFailedCase_unsupported (a b : Char) : scanFailedCase (unsupportedVerdict a b) = 0 ∨
    ∃ d : Nat, 1 ≤ d ∧ d ≤ 9 ∧ a = '#' ∧ b = d.digitChar ∧
      scanFailedCase (unsupportedVerdict a b) = BitVec.ofNat 32 d := by
  have hclean : '#' ∉ "internal error:unsupported verdict ".toList := by decide
  have hlabel : ∀ c ∈ "internal error:unsupported verdict ".toList, decide (c ≠ '#') = true :=
    fun c hc => decide_eq_true fun heq => hclean (heq ▸ hc)
  have hdrop : (unsupportedVerdict a b).dropWhile (· ≠ '#') = (cstr [a, b]).dropWhile (· ≠ '#') :=
    List.dropWhile_append_of_pos hlabel
  unfold scanFailedCase
  rw [hdrop]
  split
  · rename_i t _ heq
    cases hu : scanU t with
    | none => exact Or.inl rfl
    | some v =>
        -- a number is left only when the first byte is the `#`
        have hbytes : a = '#' ∧ t = [b] := by
          by_cases ha : a = '\x00'
          · simp [cstr, ha] at heq
          by_cases hb : b = '\x00'
          · by_cases hhash : a = '#'
            · simp [cstr, hb, hhash] at heq
              rw [heq] at hu
              cases hu
            · simp [cstr, ha, hb, hhash] at heq
          · by_cases hhash : a = '#'
            · simp [cstr, hb, hhash] at heq
              exact ⟨hhash, heq.symm⟩
            · by_cases hhash' : b = '#'
              · simp [cstr, ha, hhash, hhash'] at heq
                rw [heq] at hu
                cases hu
              · simp [cstr, ha, hb, hhash, hhash'] at heq
        obtain ⟨ha, rfl⟩ := hbytes
        obtain ⟨hle, hb⟩ := scanU_single hu
        by_cases hv : v = 0
        · subst hv
          exact Or.inl rfl
        · exact Or.inr ⟨v, by omega, hle, ha, hb, rfl⟩
  · exact Or.inl rfl

theorem scanFailedCase_digit (hpos : 1 ≤ j) (hle : j ≤ 9) :
    scanFailedCase (unsupportedVerdict '#' j.digitChar) = BitVec.ofNat 32 j := by
  have hall : ∀ d ∈ List.range' 1 9,
      scanFailedCase (unsupportedVerdict '#' d.digitChar) = BitVec.ofNat 32 d := by decide
  exact hall j (List.mem_range'_1.mpr ⟨hpos, by omega⟩)

/-! ## The messages of a case -/

theorem judgeOutput_names {w : CaseWorld} {out : Option Text} {raw : Text}
    (hplain : task.comparison ≠ "special".toList) (h : judgeOutput task w k out = some raw) :
    Names k raw := by
  simp only [judgeOutput, hplain, and_false, ↓reduceIte] at h
  split_ifs at h
  · cases h
    exact names_withCase (by decide) (by decide)
  · cases h
    exact names_withCase (by decide) (by decide)
  · cases h
    exact names_withCase (by decide) (by decide)

theorem statusVerdict_names {maxTime maxMem : Nat} {s : Stat} {raw : Text}
    (h : statusVerdict task k maxTime maxMem s = some raw) : '#' ∉ raw ∨ Names k raw := by
  unfold statusVerdict at h
  split_ifs at h <;> cases h
  · exact Or.inl (by decide)
  · exact Or.inr (names_withCase (by decide) (by decide))
  · exact Or.inr (names_withCode (by decide))
  · exact Or.inr (names_withCode (by decide))
  · exact Or.inr (names_withCase (by decide) (by decide))

theorem statusVerdict_passed (task : Task) (k maxMem : Nat) : statusVerdict task k 0 maxMem {} = none := by
  simp [statusVerdict]

/-- The comparison that decides whether a group has the case with number `j`. -/
def Group.covers (g : Group) (j : Nat) : Bool :=
  g.caseStart ≤ BitVec.ofNat 32 j && BitVec.ofNat 32 j ≤ g.last

/-! ## A run with these failing cases -/

/-- A case that passes, fails with its own number, or fails with a number the jury prints. -/
def namingCase (k : Nat) (named : Option Nat) : CaseWorld where
  runScript := .absent
  output := ⟨.missing, true⟩
  statFile := some []
  answer := none
  checkScript := fun _ =>
    match named with
    | none => .done (some "ok".toList)
    | some j => if j = k then .done (some "wa".toList) else .absent
  juryPresent := true
  juryCodePresent := true
  juryCompiles := true
  jury := fun _ => ⟨true, ['#', (named.getD 0).digitChar]⟩
  verdictBefore := (' ', ' ')

/-- The run in which each case fails, or passes, as `named` has it. -/
def namingRun (named : Nat → Option Nat) (k : Nat) : CaseWorld := namingCase k (named k)

end Tle.Grade
