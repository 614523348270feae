import Mathlib.Algebra.Order.Ring.Int
import Mathlib.Algebra.Order.Ring.Nat
import Mathlib.Algebra.Order.Ring.Rat
import Mathlib.Data.List.TakeWhile
import Mathlib.Tactic.Common

/-!
# C strings and their scanners

A text is a list of characters, one for each byte. The scanners follow `strncmp`, `sscanf` and the
`strto…` family; numbers are read exactly and then converted the way C stores them.
-/

namespace Tle.Lib

abbrev Text := List Char

/-- `isspace` in the C locale. -/
def isSpace (c : Char) : Bool :=
  c = ' ' || c = '\t' || c = '\n' || c = '\x0b' || c = '\x0c' || c = '\r'

/-- What a C string function sees of a buffer: the bytes before the first NUL. -/
def cstr (s : Text) : Text := s.takeWhile (· ≠ '\x00')

theorem cstr_eq_self {s : Text} : cstr s = s ↔ '\x00' ∉ s := by
  rw [cstr, List.takeWhile_eq_self_iff]
  simp only [decide_eq_true_eq]
  exact ⟨fun h hmem => h _ hmem rfl, fun h c hc heq => h (heq ▸ hc)⟩

theorem cstr_cons {c : Char} {s : Text} (h : c ≠ '\x00') : cstr (c :: s) = c :: cstr s := by simp [cstr, h]

theorem cstr_nul {s : Text} : cstr ('\x00' :: s) = [] := rfl

theorem nul_not_mem_cstr (s : Text) : '\x00' ∉ cstr s := by
  intro hmem
  simpa using List.mem_takeWhile_imp hmem

theorem cstr_append_of_not_mem {s : Text} (h : '\x00' ∉ s) (t : Text) : cstr (s ++ t) = s ++ cstr t := by
  have hpos : ∀ c ∈ s, decide (c ≠ '\x00') = true := by
    intro c hc
    exact decide_eq_true fun heq => h (heq ▸ hc)
  rw [cstr, List.takeWhile_append_of_pos hpos]
  rfl

theorem exists_of_nul_mem {s : Text} (h : '\x00' ∈ s) : ∃ junk, s = cstr s ++ '\x00' :: junk := by
  induction s with
  | nil => cases h
  | cons c s ih =>
      by_cases hc : c = '\x00'
      · subst hc
        exact ⟨s, rfl⟩
      · obtain ⟨junk, hjunk⟩ := ih ((List.mem_cons.mp h).resolve_left (Ne.symm hc))
        exact ⟨junk, by rw [cstr_cons hc, List.cons_append, ← hjunk]⟩

/-- `strncmp(a, b, n) == 0`. The terminator takes part in the comparison. -/
def strncmpEq (a b : Text) (n : Nat) : Bool := (a ++ ['\x00']).take n = (b ++ ['\x00']).take n

/-- `strstr(s, pattern)`, as what follows from the first occurrence on. -/
def strstr (s pattern : Text) : Option Text := s.tails.find? (pattern.isPrefixOf ·)

def isOneOf (words : List Text) (s : Text) : Bool := words.any (· = s)

theorem isOneOf_iff {words : List Text} {s : Text} : isOneOf words s = true ↔ s ∈ words := by
  simp [isOneOf]

/-! ## Conversions -/

/-- The value of a 64-bit `strtol`, which saturates. -/
def clampLong (z : Int) : Int := max (-2 ^ 63) (min (2 ^ 63 - 1) z)

/-- The value of a 64-bit `strtoul`: a negative number wraps, a number out of range saturates. -/
def wrapUlong (z : Int) : Nat := if 2 ^ 64 ≤ z.natAbs then 2 ^ 64 - 1 else (z % 2 ^ 64).toNat

def toInt32 (z : Int) : Int := (BitVec.ofInt 32 z).toInt

def toUnsigned (z : Int) : Nat := (BitVec.ofInt 32 z).toNat

/-! ## Numbers -/

def formatUnsigned (n : Nat) : Text := Nat.toDigits 10 n

def formatInt : Int → Text
  | .ofNat n => Nat.toDigits 10 n
  | .negSucc n => '-' :: Nat.toDigits 10 (n + 1)

def scanNat (s : Text) : Option Nat :=
  match s.takeWhile Char.isDigit with
  | [] => none
  | ds => some (Nat.ofDigitChars 10 ds 0)

/-- The flag `0` of a conversion. -/
def zeroPad (width : Nat) (digits : Text) : Text := List.replicate (width - digits.length) '0' ++ digits

/-- White space, an optional sign and digits. -/
def scanInt (s : Text) : Option Int :=
  match s.dropWhile isSpace with
  | '-' :: t => (scanNat t).map (fun n => -(n : Int))
  | '+' :: t => (scanNat t).map (fun n => (n : Int))
  | t => (scanNat t).map (fun n => (n : Int))

/-- `%d` on input. -/
def scanD (s : Text) : Option Int := (scanInt s).map (fun z => toInt32 (clampLong z))

/-- `%u` on input. -/
def scanU (s : Text) : Option Nat := (scanInt s).map (fun z => wrapUlong z % 2 ^ 32)

/-- `strtoul(s, NULL, 10)` -/
def strtoul (s : Text) : Nat := (scanInt s).elim 0 wrapUlong

/-- `strtoul(s, &endptr, 10)`, when it converts the whole string. -/
def strtoulWhole (s : Text) : Option Nat :=
  let digits := match s.dropWhile isSpace with
    | '-' :: t => t
    | '+' :: t => t
    | t => t
  if digits ≠ [] ∧ digits.all Char.isDigit then some (strtoul s) else none

def atoi (s : Text) : Int := (scanD s).getD 0

/-- `%s` on input. -/
def scanWord (s : Text) : Option Text :=
  match s.dropWhile isSpace with
  | [] => none
  | t => some (t.takeWhile (fun c => !isSpace c))

/-- The literal part of a `sscanf` format; white space in it matches any amount of white space. -/
def scanLit : Text → Text → Option Text
  | [], s => some s
  | f :: fs, s =>
      if isSpace f then scanLit fs (s.dropWhile isSpace)
      else match s with
        | [] => none
        | c :: cs => if c = f then scanLit fs cs else none

/-- The number `strtod` reads: sign, decimal digits, fraction and exponent, before any rounding. -/
def scanDecimal (s : Text) : Rat :=
  let magnitude (s : Text) : Rat :=
    let whole := s.takeWhile Char.isDigit
    let (fraction, rest) := match s.dropWhile Char.isDigit with
      | '.' :: t => (t.takeWhile Char.isDigit, t.dropWhile Char.isDigit)
      | t => ([], t)
    let exponent : Int := match rest with
      | c :: t =>
          -- an exponent counts only when a digit follows the sign, and takes no white space
          if (c = 'e' || c = 'E') && !(t.head?.any isSpace) then (scanInt t).getD 0 else 0
      | [] => 0
    if whole = [] ∧ fraction = [] then 0
    else Nat.ofDigitChars 10 (whole ++ fraction) 0 * (10 : Rat) ^ (exponent - fraction.length)
  match s.dropWhile isSpace with
  | '-' :: t => -magnitude t
  | '+' :: t => magnitude t
  | t => magnitude t

/-! ## Lines -/

/-- The texts that `fgets` returns one after the other, with `room` bytes left in the buffer that
holds `read` (reversed) and `size - 1` bytes in a fresh one. -/
def fgetsFrom (size room : Nat) (read : Text) : Text → List Text
  | [] => if read = [] then [] else [read.reverse]
  | c :: s =>
      if c = '\n' ∨ room ≤ 1 then (c :: read).reverse :: fgetsFrom size (size - 1) [] s
      else fgetsFrom size (room - 1) (c :: read) s

/-- `while (fgets(line, size, fp))` -/
def fgetsAll (size : Nat) (s : Text) : List Text := fgetsFrom size (size - 1) [] s

/-! ## Reading back what was printed -/

theorem toInt32_clampLong {k : Nat} (hk : k < 2 ^ 31) : toInt32 (clampLong k) = k := by
  have hclamp : clampLong k = k := by
    unfold clampLong
    omega
  rw [hclamp, toInt32, BitVec.toInt_ofInt]
  exact Int.bmod_eq_of_le (by omega) (by omega)

theorem takeWhile_isDigit_append {ds rest : Text} (hds : ∀ c ∈ ds, c.isDigit = true)
    (hrest : ∀ c, rest.head? = some c → c.isDigit = false) :
    (ds ++ rest).takeWhile Char.isDigit = ds := by
  rw [List.takeWhile_append_of_pos hds]
  cases rest with
  | nil => simp
  | cons c cs => simp [hrest c rfl]

theorem isDigit_of_mem_formatUnsigned {n : Nat} {c : Char} (h : c ∈ formatUnsigned n) :
    c.isDigit = true :=
  Nat.isDigit_of_mem_toDigits (by decide) (by decide) h

theorem isSpace_of_isDigit {c : Char} (h : c.isDigit = true) : isSpace c = false := by
  simp only [Char.isDigit, Bool.and_eq_true, decide_eq_true_eq] at h
  simp only [isSpace, Bool.or_eq_false_iff, decide_eq_false_iff_not]
  refine ⟨⟨⟨⟨⟨?_, ?_⟩, ?_⟩, ?_⟩, ?_⟩, ?_⟩ <;> rintro rfl <;> revert h <;> decide

theorem scanNat_formatUnsigned (n : Nat) {rest : Text}
    (hrest : ∀ c, rest.head? = some c → c.isDigit = false) :
    scanNat (formatUnsigned n ++ rest) = some n := by
  unfold scanNat
  rw [takeWhile_isDigit_append (fun c hc => isDigit_of_mem_formatUnsigned hc) hrest]
  split
  · rename_i h; exact absurd h Nat.toDigits_ne_nil
  · simp only [formatUnsigned, Nat.ofDigitChars_ten_toDigits]

theorem scanInt_formatUnsigned (n : Nat) {rest : Text}
    (hrest : ∀ c, rest.head? = some c → c.isDigit = false) :
    scanInt (formatUnsigned n ++ rest) = some (n : Int) := by
  obtain ⟨c, cs, hcs⟩ := List.exists_cons_of_ne_nil (Nat.toDigits_ne_nil (n := n) (b := 10))
  have hc : c.isDigit = true := isDigit_of_mem_formatUnsigned (n := n) (by simp [formatUnsigned, hcs])
  have hdrop : (formatUnsigned n ++ rest).dropWhile isSpace = formatUnsigned n ++ rest := by
    simp [formatUnsigned, hcs, isSpace_of_isDigit hc]
  have hscan := scanNat_formatUnsigned n hrest
  unfold scanInt
  rw [hdrop]
  split
  · rename_i h
    simp only [formatUnsigned, hcs, List.cons_append, List.cons.injEq] at h
    rw [h.1] at hc; exact absurd hc (by decide)
  · rename_i h
    simp only [formatUnsigned, hcs, List.cons_append, List.cons.injEq] at h
    rw [h.1] at hc; exact absurd hc (by decide)
  · rw [hscan]; rfl

/-- `%u` reads back the number `%u` has printed. -/
theorem scanU_formatUnsigned {n : Nat} (hn : n < 2 ^ 32) {rest : Text}
    (hrest : ∀ c, rest.head? = some c → c.isDigit = false) :
    scanU (formatUnsigned n ++ rest) = some n := by
  rw [scanU, scanInt_formatUnsigned n hrest]
  have hwrap : wrapUlong (n : Int) = n := by
    unfold wrapUlong
    split <;> omega
  simp only [Option.map_some, hwrap, Nat.mod_eq_of_lt hn]

end Tle.Lib
