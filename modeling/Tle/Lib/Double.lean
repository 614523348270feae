import Tle.Lib.Scan

/-!
# Double arithmetic on rationals

A finite double is the rational it stands for. The two zeros are one, and so are all NaNs.
-/

namespace Tle.Lib

/-- The weight of the last of the 53 bits of `q`, at least that of a subnormal number. -/
def lastBit (q : Rat) : Int :=
  let low : Int := Nat.log2 q.num.natAbs - Nat.log2 q.den - 53
  let e := if (2 : Rat) ^ (low + 53) ≤ q ∨ q ≤ -(2 : Rat) ^ (low + 53) then low + 1 else low
  max e (-1074)

def roundHalfEven (q : Rat) : Int :=
  let r := q - q.floor
  if r < 1 / 2 then q.floor
  else if 1 / 2 < r then q.floor + 1
  else if q.floor % 2 = 0 then q.floor else q.floor + 1

/-- The double nearest to `q`. -/
def toDouble (q : Rat) : Rat := roundHalfEven (q / (2 : Rat) ^ lastBit q) * (2 : Rat) ^ lastBit q

/-! ## The doubles -/

inductive Double where
  | finite (q : Rat)
  | infinite (negative : Bool)
  | nan
  deriving DecidableEq

def Double.neg : Double → Double
  | finite q => finite (-q)
  | infinite negative => infinite !negative
  | nan => nan

/-- The double nearest to `q`, infinite from half a unit beyond the largest finite one. -/
def Double.ofRat (q : Rat) : Double :=
  let d := toDouble q
  if (2 : Rat) ^ 1024 ≤ d then infinite false
  else if d ≤ -(2 : Rat) ^ 1024 then infinite true
  else finite d

def mulDouble : Double → Double → Double
  | .finite p, .finite q => .ofRat (p * q)
  | .infinite s, .infinite t => .infinite (s != t)
  | .infinite s, .finite q => if q = 0 then .nan else .infinite (s != decide (q < 0))
  | .finite p, .infinite t => if p = 0 then .nan else .infinite (decide (p < 0) != t)
  | _, _ => .nan

/-- `(unsigned)x` where the compiler takes the low half of the 64-bit conversion, which is `LONG_MIN` for all
that has no place in 64 bits. -/
def unsignedOfDouble : Double → Nat
  | .finite q =>
      let whole := q.num.tdiv q.den
      if -2 ^ 63 ≤ whole ∧ whole < 2 ^ 63 then toUnsigned whole else 0
  | _ => 0

/-! ## `strtod` -/

def hexDigit (c : Char) : Option Nat := "0123456789abcdef".toList.findIdx? (· = c.toLower)

/-- The number after `0x`, with its exponent of 2; `none` without any digit. -/
def scanHex (s : Text) : Option Rat :=
  let isHex (c : Char) : Bool := (hexDigit c).isSome
  let whole := s.takeWhile isHex
  let (fraction, rest) := match s.dropWhile isHex with
    | '.' :: t => (t.takeWhile isHex, t.dropWhile isHex)
    | t => ([], t)
  let exponent : Int := match rest with
    | c :: t => if (c = 'p' || c = 'P') && !(t.head?.any isSpace) then (scanInt t).getD 0 else 0
    | [] => 0
  if whole = [] ∧ fraction = [] then none
  else
    let digits := (whole ++ fraction).foldl (fun n c => 16 * n + (hexDigit c).getD 0) 0
    some (digits * (2 : Rat) ^ (exponent - 4 * fraction.length))

/-- `strncasecmp(s, word, strlen(word)) == 0` -/
def startsWithNoCase (word s : Text) : Bool := (s.take word.length).map Char.toLower = word

/-- `strtod` past white space and sign. -/
def strtodBody (s : Text) : Double :=
  if startsWithNoCase "inf".toList s then .infinite false
  else if startsWithNoCase "nan".toList s then .nan
  else if s.head?.any (fun c => isSpace c || c = '-' || c = '+') then .finite 0
  else if startsWithNoCase "0x".toList s then .ofRat ((scanHex (s.drop 2)).getD 0)
  else .ofRat (scanDecimal s)

def strtod (s : Text) : Double :=
  match s.dropWhile isSpace with
  | '-' :: t => (strtodBody t).neg
  | '+' :: t => strtodBody t
  | t => strtodBody t

def atof (s : Text) : Double := strtod s

example : strtod " -0x1.8p1 points".toList = .finite (-3) := by decide +kernel

-- 1.001 s is stored a little below 1.001, and its product with 1000 stays below 1001
example : unsignedOfDouble (mulDouble (atof "1.001".toList) (.finite 1000)) = 1000 := by decide +kernel

/-! ## `%f` -/

/-- `%0<width>.<decimals>f` -/
def formatFixed (width decimals : Nat) : Double → Text
  | .finite q =>
      let scaled := (roundHalfEven ((if q < 0 then -q else q) * 10 ^ decimals)).toNat
      let digits := zeroPad (decimals + 1) (formatUnsigned scaled)
      let whole := digits.take (digits.length - decimals)
      let number := if decimals = 0 then whole else whole ++ '.' :: digits.drop (digits.length - decimals)
      if q < 0 then '-' :: zeroPad (width - 1) number else zeroPad width number
  | .infinite negative => if negative then "-inf".toList else "inf".toList
  | .nan => "nan".toList

example : formatFixed 3 0 (.finite 40) = "040".toList ∧ formatFixed 0 2 (.finite (1 / 8)) = "0.12".toList := by
  decide +kernel

end Tle.Lib
