import Tle.Lib.Double
import Tle.Lib.Json

/-!
# The texts of JSON

The grammar of JSON with what each text stands for, as bytes in UTF-8. A string stands for the C string of its
bytes, and a number for the double that `strtod` reads.
-/

namespace Tle.Lib

/-- The bytes of a character. -/
def utf8 (c : Char) : Text := (String.utf8EncodeChar c).map fun b => Char.ofNat b.toNat

/-- An infinite double lies beyond the finite ones. -/
def Double.toRat : Double → Rat
  | finite q => q
  | infinite negative => if negative then -2 ^ 1024 else 2 ^ 1024
  | nan => 0

namespace JsonText

def Spaces (t : Text) : Prop := ∀ c ∈ t, c = ' ' ∨ c = '\t' ∨ c = '\n' ∨ c = '\r'

/-! ## Numerals -/

def Digits (t : Text) : Prop := t ≠ [] ∧ ∀ c ∈ t, c.isDigit = true

inductive Exponent : Text → Prop where
  | none : Exponent []
  | some (e : Char) (sign digits : Text) (he : e = 'e' ∨ e = 'E') (hsign : sign = [] ∨ sign = ['-'] ∨ sign = ['+'])
      (hdigits : Digits digits) : Exponent (e :: (sign ++ digits))

inductive Fraction : Text → Prop where
  | none : Fraction []
  | some (digits : Text) (hdigits : Digits digits) : Fraction ('.' :: digits)

inductive Numeral : Text → Prop where
  | intro (sign whole fraction exponent : Text) (hsign : sign = [] ∨ sign = ['-'])
      (hwhole : Digits whole ∧ (whole.head? = some '0' → whole = ['0'])) (hfraction : Fraction fraction)
      (hexponent : Exponent exponent) : Numeral (sign ++ (whole ++ (fraction ++ exponent)))

/-! ## Strings -/

def shortEscapes : List (Char × Char) :=
  [('"', '"'), ('\\', '\\'), ('/', '/'), ('b', Char.ofNat 8), ('f', Char.ofNat 12), ('n', '\n'), ('r', '\r'),
    ('t', '\t')]

/-- Four hexadecimal digits and their value. -/
inductive CodeUnit : Text → Nat → Prop where
  | intro (a b c d : Char) (x y z w : Nat) (ha : hexDigit a = some x) (hb : hexDigit b = some y)
      (hc : hexDigit c = some z) (hd : hexDigit d = some w) :
      CodeUnit [a, b, c, d] (16 * (16 * (16 * x + y) + z) + w)

/-- What stands between the quotes of a string, and the characters it stands for. -/
inductive Literal : Text → List Char → Prop where
  | nil : Literal [] []
  | plain (c : Char) (t : Text) (u : List Char) (hquote : c ≠ '"') (hbackslash : c ≠ '\\') (hspace : ' ' ≤ c)
      (h : Literal t u) : Literal (utf8 c ++ t) (c :: u)
  | short (e c : Char) (t : Text) (u : List Char) (he : (e, c) ∈ shortEscapes) (h : Literal t u) :
      Literal ('\\' :: e :: t) (c :: u)
  | unit (digits : Text) (c : Char) (t : Text) (u : List Char) (hdigits : CodeUnit digits c.toNat)
      (h : Literal t u) : Literal ('\\' :: 'u' :: (digits ++ t)) (c :: u)
  | pair (high low : Text) (a b : Nat) (c : Char) (t : Text) (u : List Char) (hhigh : CodeUnit high (0xD800 + a))
      (hlow : CodeUnit low (0xDC00 + b)) (ha : a < 0x400) (hb : b < 0x400) (hc : c.toNat = 0x10000 + 0x400 * a + b)
      (h : Literal t u) : Literal ('\\' :: 'u' :: (high ++ '\\' :: 'u' :: (low ++ t))) (c :: u)

/-- The C string of the characters. -/
def cstring (u : List Char) : Text := cstr (u.flatMap utf8)

/-! ## Values -/

/-- A value with the white space around it. -/
structure Element where
  before : Text
  text : Text
  after : Text
  json : Json

def Element.render (e : Element) : Text := e.before ++ (e.text ++ e.after)

/-- A member of an object: its name between quotes, with white space around it, and its value. -/
structure Member where
  before : Text
  literal : Text
  name : List Char
  after : Text
  value : Element

def Member.render (m : Member) : Text := m.before ++ '"' :: (m.literal ++ '"' :: (m.after ++ ':' :: m.value.render))

def Member.json (m : Member) : Text × Json := (cstring m.name, m.value.json)

structure Element.Spaced (e : Element) : Prop where
  before : Spaces e.before
  after : Spaces e.after

structure Member.Spaced (m : Member) : Prop where
  before : Spaces m.before
  after : Spaces m.after
  literal : Literal m.literal m.name
  value : m.value.Spaced

/-- Texts one after the other, with a comma before each of them. -/
def continued (ts : List Text) : Text := ts.flatMap (',' :: ·)

/-- The texts of values with numerals of at most `m` characters, and with brackets nested at most `n` deep. -/
inductive Value (m : Nat) : Nat → Text → Json → Prop where
  | null (n : Nat) : Value m n ['n', 'u', 'l', 'l'] .null
  | false (n : Nat) : Value m n ['f', 'a', 'l', 's', 'e'] (.bool .false)
  | true (n : Nat) : Value m n ['t', 'r', 'u', 'e'] (.bool .true)
  | number (n : Nat) (t : Text) (ht : Numeral t) (hm : t.length ≤ m) : Value m n t (.number (strtod t).toRat)
  | string (n : Nat) (t : Text) (u : List Char) (ht : Literal t u) : Value m n ('"' :: (t ++ ['"'])) (.string (cstring u))
  | emptyArray (n : Nat) (spaces : Text) (hs : Spaces spaces) : Value m (n + 1) ('[' :: (spaces ++ [']'])) (.array [])
  | array (n : Nat) (first : Element) (rest : List Element) (hs : ∀ e ∈ first :: rest, e.Spaced)
      (h : ∀ e ∈ first :: rest, Value m n e.text e.json) :
      Value m (n + 1) ('[' :: (first.render ++ (continued (rest.map Element.render) ++ [']'])))
        (.array ((first :: rest).map Element.json))
  | emptyObject (n : Nat) (spaces : Text) (hs : Spaces spaces) :
      Value m (n + 1) ('{' :: (spaces ++ ['}'])) (.object [])
  | object (n : Nat) (first : Member) (rest : List Member) (hs : ∀ e ∈ first :: rest, e.Spaced)
      (h : ∀ e ∈ first :: rest, Value m n e.value.text e.value.json) :
      Value m (n + 1) ('{' :: (first.render ++ (continued (rest.map Member.render) ++ ['}'])))
        (.object ((first :: rest).map Member.json))

end JsonText

end Tle.Lib
