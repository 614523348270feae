import Tle.Cjson.Lemmas.Reading
import Tle.Cjson.Tree

/-!
# What `parse_string` makes of a string of the grammar
-/

namespace Tle.Cjson
open Tle.Lib Tle.Lib.Comp Tle.Lib.JsonText

variable {input : Input} {s : ParseBuffer} {t t' : Text} {u : List Char} {p last k size : Nat}

/-! ## UTF-8 -/

theorem ofNat_toNat_ofNat {n : Nat} (h : n < 256) : Char.ofNat (UInt8.ofNat n).toNat = Char.ofNat n := by
  rw [UInt8.toNat_ofNat', Nat.mod_eq_of_lt h]

/-- A byte that continues a character. -/
theorem continuation_eq (x : Nat) : (x ||| 0x80) &&& 0xBF = x % 64 + 0x80 := by
  have hsmall : ∀ y < 256, (y ||| 0x80) &&& 0xBF = y % 64 + 0x80 := by decide +kernel
  have hlt : (x ||| 0x80) &&& 0xBF < 2 ^ 8 := lt_of_le_of_lt Nat.and_le_right (by decide)
  have h64 : x % 256 % 64 = x % 64 := Nat.mod_mod_of_dvd x (by decide)
  calc (x ||| 0x80) &&& 0xBF = ((x ||| 0x80) &&& 0xBF) % 2 ^ 8 := (Nat.mod_eq_of_lt hlt).symm
    _ = (x % 256 ||| 0x80) &&& 0xBF := by rw [Nat.and_mod_two_pow, Nat.or_mod_two_pow]
    _ = x % 64 + 0x80 := by rw [hsmall _ (Nat.mod_lt _ (by decide)), h64]

theorem lead_two : ∀ y < 32, (y ||| 0xC0) &&& 0xFF = y + 0xC0 := by decide +kernel

theorem lead_three : ∀ y < 16, (y ||| 0xE0) &&& 0xFF = y + 0xE0 := by decide +kernel

theorem lead_four : ∀ y < 8, (y ||| 0xF0) &&& 0xFF = y + 0xF0 := by decide +kernel

theorem toNat_lt (c : Char) : c.toNat < 0x110000 := by
  rcases c.valid with h | h
  · exact lt_trans h (by decide)
  · exact h.2

/-- The encoder gives the bytes of the character. -/
theorem encodeUtf8_toNat (c : Char) : encodeUtf8 c.toNat = some (utf8 c) := by
  have hmax := toNat_lt c
  have hval : c.val.toNat = c.toNat := rfl
  simp only [encodeUtf8, utf8, String.utf8EncodeChar, hval]
  generalize c.toNat = n at hmax
  by_cases h1 : n < 0x80
  · have h1' : n ≤ 0x7F := Nat.le_of_lt_succ h1
    have hand : n &&& 0x7F = n := by rw [Nat.and_two_pow_sub_one_eq_mod n 7, Nat.mod_eq_of_lt h1]
    rw [if_pos h1, if_pos h1', List.map_singleton, ofNat_toNat_ofNat (by omega), hand]
  have h1' : ¬n ≤ 0x7F := by omega
  rw [if_neg h1, if_neg h1']
  by_cases h2 : n < 0x800
  · have h2' : n ≤ 0x7FF := Nat.le_of_lt_succ h2
    rw [if_pos h2, if_pos h2']
    simp only [utf8From, List.map_cons, List.map_nil, Nat.shiftRight_eq_div_pow, Nat.reducePow]
    rw [continuation_eq, lead_two _ (by omega), ofNat_toNat_ofNat (by omega), ofNat_toNat_ofNat (by omega),
      Nat.mod_eq_of_lt (by omega : n / 64 < 32)]
  have h2' : ¬n ≤ 0x7FF := by omega
  rw [if_neg h2, if_neg h2']
  by_cases h3 : n < 0x10000
  · have h3' : n ≤ 0xFFFF := Nat.le_of_lt_succ h3
    rw [if_pos h3, if_pos h3']
    simp only [utf8From, List.map_cons, List.map_nil, Nat.shiftRight_eq_div_pow, Nat.reducePow, Nat.div_div_eq_div_mul,
      Nat.reduceMul]
    rw [continuation_eq, continuation_eq, lead_three _ (by omega), ofNat_toNat_ofNat (by omega),
      ofNat_toNat_ofNat (by omega), ofNat_toNat_ofNat (by omega), Nat.mod_eq_of_lt (by omega : n / 4096 < 16)]
  have h3' : ¬n ≤ 0xFFFF := by omega
  have h4 : n ≤ 0x10FFFF := by omega
  rw [if_neg h3, if_neg h3', if_pos h4]
  simp only [utf8From, List.map_cons, List.map_nil, Nat.shiftRight_eq_div_pow, Nat.reducePow, Nat.div_div_eq_div_mul,
    Nat.reduceMul]
  rw [continuation_eq, continuation_eq, continuation_eq, lead_four _ (by omega), ofNat_toNat_ofNat (by omega),
    ofNat_toNat_ofNat (by omega), ofNat_toNat_ofNat (by omega), ofNat_toNat_ofNat (by omega),
    Nat.mod_eq_of_lt (by omega : n / 262144 < 8)]

/-- A byte that neither ends a string nor starts an escape. -/
def Plain (b : Char) : Prop := b ≠ '"' ∧ b ≠ '\\'

theorem plain_of_large {n : Nat} (hlow : 0x80 ≤ n) (hhigh : n < 0x100) :
    Plain (Char.ofNat (UInt8.ofNat n).toNat) := by
  have hvalid : n.isValidChar := Or.inl (by omega)
  have hnat : (Char.ofNat n).toNat = n := by
    rw [Char.ofNat, dif_pos hvalid]
    rfl
  rw [ofNat_toNat_ofNat hhigh]
  constructor
  · intro h
    rw [h] at hnat
    have hquote : ('"').toNat = 34 := rfl
    omega
  · intro h
    rw [h] at hnat
    have hbackslash : ('\\').toNat = 92 := rfl
    omega

/-- The bytes of a plain character are plain. -/
theorem plain_utf8 {c : Char} (hquote : c ≠ '"') (hbackslash : c ≠ '\\') : ∀ b ∈ utf8 c, Plain b := by
  have hmax := toNat_lt c
  have hval : c.val.toNat = c.toNat := rfl
  have hsame : Char.ofNat c.toNat = c := Char.ofNat_toNat c
  simp only [utf8, String.utf8EncodeChar, hval]
  intro b hb
  split at hb
  · rename_i h
    rw [List.map_singleton, ofNat_toNat_ofNat (by omega), hsame] at hb
    rw [List.mem_singleton.mp hb]
    exact ⟨hquote, hbackslash⟩
  · obtain ⟨x, hx, rfl⟩ := List.mem_map.mp hb
    split at hx
    · simp only [List.mem_cons, List.not_mem_nil, or_false] at hx
      rcases hx with rfl | rfl
      · exact plain_of_large (by omega) (by omega)
      · exact plain_of_large (by omega) (by omega)
    · split at hx
      · simp only [List.mem_cons, List.not_mem_nil, or_false] at hx
        rcases hx with rfl | rfl | rfl
        · exact plain_of_large (by omega) (by omega)
        · exact plain_of_large (by omega) (by omega)
        · exact plain_of_large (by omega) (by omega)
      · simp only [List.mem_cons, List.not_mem_nil, or_false] at hx
        rcases hx with rfl | rfl | rfl | rfl
        · exact plain_of_large (by omega) (by omega)
        · exact plain_of_large (by omega) (by omega)
        · exact plain_of_large (by omega) (by omega)
        · exact plain_of_large (by omega) (by omega)

/-! ## Code units -/

theorem plain_of_hexDigit {c : Char} {x : Nat} (h : hexDigit c = some x) : Plain c := by
  constructor
  · intro hc
    rw [hc] at h
    cases h
  · intro hc
    rw [hc] at h
    cases h

theorem plain_codeUnit {digits : Text} {n : Nat} (h : CodeUnit digits n) : ∀ b ∈ digits, Plain b := by
  obtain ⟨a, b, c, d, x, y, z, w, ha, hb, hc, hd⟩ := h
  intro e he
  simp only [List.mem_cons, List.not_mem_nil, or_false] at he
  rcases he with rfl | rfl | rfl | rfl
  · exact plain_of_hexDigit ha
  · exact plain_of_hexDigit hb
  · exact plain_of_hexDigit hc
  · exact plain_of_hexDigit hd

theorem length_codeUnit {digits : Text} {n : Nat} (h : CodeUnit digits n) : digits.length = 4 := by
  cases h
  rfl

theorem parseHex4_codeUnit {digits : Text} {n : Nat} (h : CodeUnit digits n) : parseHex4 digits = n := by
  obtain ⟨a, b, c, d, x, y, z, w, ha, hb, hc, hd⟩ := h
  simp [parseHex4, hexFrom, ha, hb, hc, hd]

/-! ## The first pass -/

theorem ends_scan_plain {bs : Text} {Q : Option (Nat × Nat) → ParseBuffer → Prop} (hb : ∀ b ∈ bs, Plain b)
    (hdrop : input.content.drop p = bs ++ t)
    (hQ : ∀ n, Ends (loop n (scanLiteral input) (p + bs.length, k)) s Q) (n : Nat) :
    Ends (loop n (scanLiteral input) (p, k)) s Q := by
  induction bs generalizing p n with
  | nil => exact hQ n
  | cons b bs ih =>
      obtain ⟨hquote, hbackslash⟩ := hb b List.mem_cons_self
      have hget := getElem?_of_drop hdrop
      have hlt : p < input.content.length := length_of_drop hdrop
      refine Ends.loop fun n => ?_
      simp only [scanLiteral, if_pos hlt, Ends.bind_iff, ends_contentAt, hget]
      intro c hc
      cases hc
      rw [if_neg hquote, if_neg hbackslash, Ends.pure_iff]
      refine ⟨fun q hq => ?_, fun c hc => by cases hc⟩
      cases hq
      refine ih (fun b hb' => hb b (List.mem_cons_of_mem _ hb')) (drop_succ hdrop) (fun n => ?_) n
      have hsum : p + 1 + bs.length = p + (b :: bs).length := by
        rw [List.length_cons]
        omega
      rw [hsum]
      exact hQ n

/-- An escape is taken together with the byte behind its backslash. -/
theorem ends_scan_escape {e : Char} {Q : Option (Nat × Nat) → ParseBuffer → Prop}
    (hdrop : input.content.drop p = '\\' :: e :: t)
    (hQ : ∀ n, Ends (loop n (scanLiteral input) (p + 2, k + 1)) s Q) (n : Nat) :
    Ends (loop n (scanLiteral input) (p, k)) s Q := by
  have hlt : p < input.content.length := length_of_drop hdrop
  have hlt' : p + 1 < input.content.length := length_of_drop (drop_succ hdrop)
  refine Ends.loop fun n => ?_
  simp only [scanLiteral, if_pos hlt, Ends.bind_iff, ends_contentAt, getElem?_of_drop hdrop]
  intro c hc
  cases hc
  rw [if_neg (by decide), if_pos rfl, if_neg (Nat.not_le_of_lt hlt'), Ends.pure_iff]
  refine ⟨fun q hq => ?_, fun c hc => by cases hc⟩
  cases hq
  exact hQ n

/-- The first pass finds the quote at the end. -/
theorem ends_scan (h : Literal t u) (hdrop : input.content.drop p = t ++ '"' :: t') (n : Nat) :
    Ends (loop n (scanLiteral input) (p, k)) s (fun r s' => s' = s ∧ ∃ k', r = some (p + t.length, k')) := by
  induction h generalizing p k n with
  | nil =>
      have hlt : p < input.content.length := length_of_drop hdrop
      refine Ends.loop fun n => ?_
      simp only [scanLiteral, if_pos hlt, Ends.bind_iff, ends_contentAt, getElem?_of_drop hdrop]
      intro c hc
      cases hc
      rw [if_pos rfl, Ends.pure_iff]
      refine ⟨(fun q hq => by cases hq), fun c hc => ?_⟩
      cases hc
      exact ⟨rfl, k, rfl⟩
  | plain c t u hquote hbackslash _ _ ih =>
      rw [List.append_assoc] at hdrop
      refine ends_scan_plain (plain_utf8 hquote hbackslash) hdrop (fun n => ?_) n
      refine (ih (drop_add hdrop) n).mono fun r s' hr => ?_
      rw [List.length_append, ← Nat.add_assoc]
      exact hr
  | short e c t u _ _ ih =>
      refine ends_scan_escape hdrop (fun n => ?_) n
      refine (ih (drop_add (t := ['\\', e]) hdrop) n).mono fun r s' hr => ?_
      have hsum : p + ('\\' :: e :: t).length = p + 2 + t.length := by
        simp only [List.length_cons]
        omega
      rw [hsum]
      exact hr
  | unit digits c t u hdigits _ ih =>
      simp only [List.cons_append, List.append_assoc] at hdrop
      refine ends_scan_escape hdrop (fun n => ?_) n
      have hrest : input.content.drop (p + 2) = digits ++ (t ++ '"' :: t') := drop_add (t := ['\\', 'u']) hdrop
      refine ends_scan_plain (plain_codeUnit hdigits) hrest (fun n => ?_) n
      refine (ih (drop_add hrest) n).mono fun r s' hr => ?_
      have hsum : p + ('\\' :: 'u' :: (digits ++ t)).length = p + 2 + digits.length + t.length := by
        simp only [List.length_cons, List.length_append]
        omega
      rw [hsum]
      exact hr
  | pair high low a b c t u hhigh hlow _ _ _ _ ih =>
      simp only [List.cons_append, List.append_assoc] at hdrop
      refine ends_scan_escape hdrop (fun n => ?_) n
      have hrest : input.content.drop (p + 2) = high ++ '\\' :: 'u' :: (low ++ (t ++ '"' :: t')) :=
        drop_add (t := ['\\', 'u']) hdrop
      refine ends_scan_plain (plain_codeUnit hhigh) hrest (fun n => ?_) n
      have hsecond := drop_add hrest
      refine ends_scan_escape hsecond (fun n => ?_) n
      have hrest' : input.content.drop (p + 2 + high.length + 2) = low ++ (t ++ '"' :: t') :=
        drop_add (t := ['\\', 'u']) hsecond
      refine ends_scan_plain (plain_codeUnit hlow) hrest' (fun n => ?_) n
      refine (ih (drop_add hrest') n).mono fun r s' hr => ?_
      have hsum : p + ('\\' :: 'u' :: (high ++ '\\' :: 'u' :: (low ++ t))).length =
          p + 2 + high.length + 2 + low.length + t.length := by
        simp only [List.length_cons, List.length_append]
        omega
      rw [hsum]
      exact hr

/-! ## The second pass -/

theorem take_codeUnit {digits : Text} {n : Nat} (h : CodeUnit digits n)
    (hdrop : input.content.drop p = digits ++ t) : (input.content.drop p).take 4 = digits := by
  rw [hdrop, ← length_codeUnit h, List.take_left]

theorem ends_utf16_unit {digits : Text} {c : Char} (h : CodeUnit digits c.toNat)
    (hdrop : input.content.drop p = '\\' :: 'u' :: (digits ++ t)) (hlast : p + 6 ≤ last) :
    Ends (utf16LiteralToUtf8 input p last) s (fun r s' => s' = s ∧ r = some (utf8 c, 6)) := by
  have hdigits : input.content.drop (p + 2) = digits ++ t := drop_add (t := ['\\', 'u']) hdrop
  have hlow : ¬(0xDC00 ≤ c.toNat ∧ c.toNat ≤ 0xDFFF) := by
    have hvalid : c.toNat.isValidChar := c.valid
    rcases hvalid with h | h <;> omega
  have hhigh : ¬(0xD800 ≤ c.toNat ∧ c.toNat ≤ 0xDBFF) := by
    have hvalid : c.toNat.isValidChar := c.valid
    rcases hvalid with h | h <;> omega
  unfold utf16LiteralToUtf8
  rw [if_neg (Nat.not_lt.mpr hlast), Ends.bind_iff, ends_hexAt]
  intro _
  rw [take_codeUnit h hdigits, parseHex4_codeUnit h, if_neg hlow, if_neg hhigh, Ends.pure_iff, encodeUtf8_toNat]
  exact ⟨rfl, rfl⟩

/-- The bits of a surrogate pair. -/
theorem surrogates {a b : Nat} (ha : a < 0x400) (hb : b < 0x400) :
    0x10000 + ((((0xD800 + a) &&& 0x3FF) <<< 10) ||| ((0xDC00 + b) &&& 0x3FF)) = 0x10000 + 0x400 * a + b := by
  have hhigh : (0xD800 + a) &&& 0x3FF = a := by
    rw [Nat.and_two_pow_sub_one_eq_mod _ 10]
    omega
  have hlow : (0xDC00 + b) &&& 0x3FF = b := by
    rw [Nat.and_two_pow_sub_one_eq_mod _ 10]
    omega
  rw [hhigh, hlow, ← Nat.shiftLeft_add_eq_or_of_lt hb, Nat.shiftLeft_eq]
  omega

theorem ends_utf16_pair {high low : Text} {a b : Nat} {c : Char} (hhigh : CodeUnit high (0xD800 + a))
    (hlow : CodeUnit low (0xDC00 + b)) (ha : a < 0x400) (hb : b < 0x400) (hc : c.toNat = 0x10000 + 0x400 * a + b)
    (hdrop : input.content.drop p = '\\' :: 'u' :: (high ++ '\\' :: 'u' :: (low ++ t))) (hlast : p + 12 ≤ last) :
    Ends (utf16LiteralToUtf8 input p last) s (fun r s' => s' = s ∧ r = some (utf8 c, 12)) := by
  have hfirst : input.content.drop (p + 2) = high ++ '\\' :: 'u' :: (low ++ t) :=
    drop_add (t := ['\\', 'u']) hdrop
  have hsecond : input.content.drop (p + 6) = '\\' :: 'u' :: (low ++ t) := by
    have hdropped := drop_add hfirst
    rw [length_codeUnit hhigh] at hdropped
    exact hdropped
  have hu : input.content[p + 7]? = some 'u' := getElem?_of_drop (drop_succ hsecond)
  have hdigits : input.content.drop (p + 8) = low ++ t := drop_add (t := ['\\', 'u']) hsecond
  unfold utf16LiteralToUtf8
  rw [if_neg (by omega), Ends.bind_iff, ends_hexAt]
  intro _
  rw [take_codeUnit hhigh hfirst, parseHex4_codeUnit hhigh, if_neg (by omega), if_pos (by omega), if_neg (by omega),
    Ends.bind_iff, ends_contentAt]
  intro x hx
  rw [getElem?_of_drop hsecond] at hx
  cases hx
  rw [if_neg (by decide), Ends.bind_iff, ends_contentAt]
  intro x hx
  rw [hu] at hx
  cases hx
  rw [if_neg (by decide), Ends.bind_iff, ends_hexAt]
  intro _
  rw [take_codeUnit hlow hdigits, parseHex4_codeUnit hlow, if_neg (by omega), Ends.pure_iff, surrogates ha hb, ← hc,
    encodeUtf8_toNat]
  exact ⟨rfl, rfl⟩

variable {output : Text} {Q : Nat × Option Text → ParseBuffer → Prop}

theorem ends_unescape_plain {bs : Text} (hb : ∀ b ∈ bs, Plain b) (hdrop : input.content.drop p = bs ++ t)
    (hlast : p + bs.length ≤ last)
    (hQ : ∀ n, Ends (loop n (unescape input last size) (p + bs.length, output ++ bs)) s Q) (n : Nat) :
    Ends (loop n (unescape input last size) (p, output)) s Q := by
  induction bs generalizing p output n with
  | nil =>
      rw [List.append_nil] at hQ
      exact hQ n
  | cons b bs ih =>
      obtain ⟨-, hbackslash⟩ := hb b List.mem_cons_self
      rw [List.length_cons] at hlast hQ
      have hlt : p < last := by omega
      refine Ends.loop fun n => ?_
      simp only [unescape, if_pos hlt, Ends.bind_iff, ends_contentAt, getElem?_of_drop hdrop]
      intro c hc
      cases hc
      rw [if_pos hbackslash, Ends.bind_iff, ends_write]
      intro _
      rw [Ends.pure_iff]
      refine ⟨fun q hq => ?_, fun c hc => by cases hc⟩
      cases hq
      refine ih (fun b hb' => hb b (List.mem_cons_of_mem _ hb')) (drop_succ hdrop) (by omega) (fun n => ?_) n
      have hsum : p + 1 + bs.length = p + (bs.length + 1) := by omega
      rw [hsum, List.append_assoc]
      exact hQ n

/-- The start of an escape. -/
theorem ends_unescape_escape {e : Char} (hdrop : input.content.drop p = '\\' :: e :: t) (hlast : p < last)
    (hunit : e = 'u' → ∃ bytes j, Ends (utf16LiteralToUtf8 input p last) s (fun r s' => s' = s ∧ r = some (bytes, j)) ∧
      ∀ n, Ends (loop n (unescape input last size) (p + j, output ++ bytes)) s Q)
    (hshort : e ≠ 'u' → ∃ b, simpleEscape e = some b ∧
      ∀ n, Ends (loop n (unescape input last size) (p + 2, output ++ [b])) s Q) (n : Nat) :
    Ends (loop n (unescape input last size) (p, output)) s Q := by
  refine Ends.loop fun n => ?_
  simp only [unescape, if_pos hlast, Ends.bind_iff, ends_contentAt, getElem?_of_drop hdrop]
  intro c hc
  cases hc
  rw [if_neg (not_not.mpr rfl), if_neg (by omega), Ends.bind_iff, ends_contentAt]
  intro c hc
  rw [getElem?_of_drop (drop_succ hdrop)] at hc
  cases hc
  rw [Ends.ite_iff]
  constructor
  · intro hu
    obtain ⟨bytes, j, hread, hrest⟩ := hunit hu
    rw [Ends.bind_iff]
    refine hread.mono fun r s' hr => ?_
    obtain ⟨rfl, rfl⟩ := hr
    simp only [Ends.bind_iff, ends_write, Ends.pure_iff]
    intro _
    refine ⟨fun q hq => ?_, fun c hc => by cases hc⟩
    cases hq
    exact hrest n
  · intro hu
    obtain ⟨b, hb, hrest⟩ := hshort hu
    rw [hb]
    simp only [Ends.bind_iff, ends_write, Ends.pure_iff]
    intro _
    refine ⟨fun q hq => ?_, fun c hc => by cases hc⟩
    cases hq
    exact hrest n

theorem simpleEscape_short {e c : Char} (h : (e, c) ∈ shortEscapes) :
    e ≠ 'u' ∧ simpleEscape e = some c ∧ utf8 c = [c] := by
  simp only [shortEscapes, List.mem_cons, Prod.mk.injEq, List.not_mem_nil, or_false] at h
  rcases h with ⟨rfl, rfl⟩ | ⟨rfl, rfl⟩ | ⟨rfl, rfl⟩ | ⟨rfl, rfl⟩ | ⟨rfl, rfl⟩ | ⟨rfl, rfl⟩ | ⟨rfl, rfl⟩ | ⟨rfl, rfl⟩ <;>
    decide

/-- The second pass writes the bytes of the characters. -/
theorem ends_unescape (h : Literal t u) (hdrop : input.content.drop p = t ++ '"' :: t') (hlast : last = p + t.length)
    (n : Nat) : Ends (loop n (unescape input last size) (p, output)) s
      (fun r s' => s' = s ∧ r = (last, some (output ++ u.flatMap utf8))) := by
  induction h generalizing p output n with
  | nil =>
      have hend : ¬p < last := by
        rw [hlast]
        exact Nat.lt_irrefl p
      refine Ends.loop fun n => ?_
      simp only [unescape, if_neg hend, Ends.pure_iff]
      refine ⟨(fun q hq => by cases hq), fun c hc => ?_⟩
      cases hc
      rw [hlast, List.flatMap_nil, List.append_nil]
      exact ⟨trivial, rfl⟩
  | plain c t u hquote hbackslash _ _ ih =>
      rw [List.length_append] at hlast
      rw [List.append_assoc] at hdrop
      refine ends_unescape_plain (plain_utf8 hquote hbackslash) hdrop (by omega) (fun n => ?_) n
      rw [List.flatMap_cons, ← List.append_assoc]
      exact ih (drop_add hdrop) (by omega) n
  | short e c t u he _ ih =>
      obtain ⟨hu, hescape, hutf8⟩ := simpleEscape_short he
      simp only [List.length_cons] at hlast
      refine ends_unescape_escape hdrop (by omega) (fun h => absurd h hu) (fun _ => ⟨c, hescape, fun n => ?_⟩) n
      rw [List.flatMap_cons, hutf8, ← List.append_assoc]
      have hrest : input.content.drop (p + 2) = t ++ '"' :: t' := drop_add (t := ['\\', e]) hdrop
      exact ih hrest (by omega) n
  | unit digits c t u hdigits _ ih =>
      have hlength := length_codeUnit hdigits
      simp only [List.length_cons, List.length_append] at hlast
      simp only [List.cons_append, List.append_assoc] at hdrop
      refine ends_unescape_escape hdrop (by omega)
        (fun _ => ⟨_, _, ends_utf16_unit hdigits hdrop (by omega), fun n => ?_⟩) (fun h => absurd rfl h) n
      rw [List.flatMap_cons, ← List.append_assoc]
      refine ih ?_ (by omega) n
      have hrest : input.content.drop (p + 2) = digits ++ (t ++ '"' :: t') := drop_add (t := ['\\', 'u']) hdrop
      have hdropped := drop_add hrest
      rw [hlength] at hdropped
      exact hdropped
  | pair high low a b c t u hhigh hlow ha hb hc _ ih =>
      have hlength := length_codeUnit hhigh
      have hlength' := length_codeUnit hlow
      simp only [List.length_cons, List.length_append] at hlast
      simp only [List.cons_append, List.append_assoc] at hdrop
      refine ends_unescape_escape hdrop (by omega)
        (fun _ => ⟨_, _, ends_utf16_pair hhigh hlow ha hb hc hdrop (by omega), fun n => ?_⟩) (fun h => absurd rfl h) n
      rw [List.flatMap_cons, ← List.append_assoc]
      refine ih ?_ (by omega) n
      have hrest : input.content.drop (p + 2) = high ++ '\\' :: 'u' :: (low ++ (t ++ '"' :: t')) :=
        drop_add (t := ['\\', 'u']) hdrop
      have hsecond := drop_add hrest
      have hrest' : input.content.drop (p + 2 + high.length + 2) = low ++ (t ++ '"' :: t') :=
        drop_add (t := ['\\', 'u']) hsecond
      have hdropped := drop_add hrest'
      rw [hlength, hlength'] at hdropped
      exact hdropped

/-! ## The literal -/

/-- An allocation may be refused. -/
def Input.Refuses (input : Input) : Prop := ∃ n, input.allocates n = false

/-- A string of the grammar is read to its end, unless an allocation is refused. -/
theorem ends_parseString {item : Item} {t' : Text} (h : Literal t u)
    (hdrop : input.content.drop s.offset = '"' :: (t ++ '"' :: t')) :
    Ends (parseString input item) s (fun r s' => (r = none ∧ input.Refuses) ∨ ∃ b,
      r = some { item with type := .string, valuestring := some { block := b, bytes := u.flatMap utf8 } } ∧
        s'.offset = s.offset + (t.length + 2) ∧ s'.depth = s.depth) := by
  have hbody := drop_succ hdrop
  have hquote := getElem?_of_drop_append hbody
  have hlt : s.offset + 1 + t.length < input.content.length := length_of_drop (drop_add hbody)
  unfold parseString
  rw [Ends.bind_iff, Ends.get_iff, Ends.bind_iff, ends_byteAt]
  intro c hc
  rw [Nat.add_zero, getElem?_of_drop hdrop] at hc
  cases hc
  rw [if_neg (not_not.mpr rfl), Ends.bind_iff]
  refine (ends_scan h hbody _).mono fun r s' hr => ?_
  obtain ⟨rfl, k, rfl⟩ := hr
  simp only
  rw [if_neg (Nat.not_le_of_lt hlt), Ends.bind_iff, ends_contentAt]
  intro c hc
  rw [hquote] at hc
  cases hc
  rw [if_neg (not_not.mpr rfl)]
  unfold unescapeLiteral
  rw [Ends.bind_iff, ends_allocate]
  cases hok : input.allocates s'.heap.count with
  | false =>
      simp only [Ledger.allocate, Bool.false_eq_true, ↓reduceIte, Ends.bind_iff, ends_setOffset, Ends.pure_iff]
      exact Or.inl ⟨trivial, _, hok⟩
  | true =>
      simp only [Ledger.allocate, ↓reduceIte, Ends.bind_iff]
      refine Ends.mono (ends_unescape h hbody rfl _) fun r s'' hr => ?_
      obtain ⟨rfl, rfl⟩ := hr
      simp only [Ends.bind_iff, ends_write, ends_setOffset, Ends.pure_iff, List.nil_append]
      intro _
      exact Or.inr ⟨_, rfl, by omega, trivial⟩

end Tle.Cjson
