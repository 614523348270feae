import Tle.Cjson.Lemmas.Strings

/-!
# What reading a value comes to
-/

namespace Tle.Cjson
open Tle.Lib Tle.Lib.Comp

variable {input : Input} {s : ParseBuffer} {base : Multiset Nat} {item : Item}

/-! ## Numbers -/

theorem length_takeWhile_le {α : Type*} (p : α → Bool) (l : List α) : (l.takeWhile p).length ≤ l.length :=
  (List.takeWhile_prefix p).length_le

theorem exponentLength_le (t : Text) : exponentLength t ≤ t.length := by
  cases t with
  | nil => simp [exponentLength]
  | cons e t =>
      have hlength := length_takeWhile_le Char.isDigit (t.drop (signLength t))
      rw [List.length_drop] at hlength
      rw [exponentLength, List.length_cons]
      split
      · rename_i h
        have hpos := List.length_pos_iff.mpr h.2
        omega
      · omega

theorem length_fractionDigits_le (t : Text) :
    (fractionDigits t).length ≤ t.length - (if t.head? = some '.' then 1 else 0) := by
  unfold fractionDigits
  split
  · simpa using length_takeWhile_le Char.isDigit _
  · simp

/-- `strtod` does not read beyond the end. -/
theorem decimalLength_le (t : Text) : decimalLength t ≤ t.length := by
  unfold decimalLength
  simp only
  generalize hwhole : (t.drop (signLength t)).takeWhile Char.isDigit = whole
  generalize hrest : t.drop (signLength t + whole.length) = rest
  have hwholeLe : whole.length ≤ t.length - signLength t := by
    rw [← hwhole, ← List.length_drop]
    exact length_takeWhile_le _ _
  have hrestLength : rest.length = t.length - (signLength t + whole.length) := by rw [← hrest, List.length_drop]
  have hfraction := length_fractionDigits_le rest
  have hexponent := exponentLength_le (rest.drop ((if rest.head? = some '.' then 1 else 0) +
    (fractionDigits rest).length))
  rw [List.length_drop] at hexponent
  have hpoint : (if rest.head? = some '.' then 1 else 0) ≤ rest.length := by
    cases rest with
    | nil => simp
    | cons c rest =>
        rw [List.length_cons]
        split <;> omega
  generalize (if rest.head? = some '.' then 1 else 0) = point at *
  split
  · omega
  · rename_i hdigits
    have hsome : 0 < whole.length + (fractionDigits rest).length := by
      by_contra hzero
      have hzero' : whole.length = 0 ∧ (fractionDigits rest).length = 0 := by omega
      exact hdigits ⟨List.length_eq_zero_iff.mp hzero'.1, List.length_eq_zero_iff.mp hzero'.2⟩
    omega

/-- What `parse_number` copies from `o` on. -/
def numberText (content : Text) (o : Nat) : Text := ((content.drop o).take 63).takeWhile isNumberByte

theorem length_numberText (content : Text) (o : Nat) : (numberText content o).length ≤ content.length - o := by
  have hlength := length_takeWhile_le isNumberByte ((content.drop o).take 63)
  rw [List.length_take, List.length_drop] at hlength
  unfold numberText
  omega

theorem runs_copyNumber (hle : s.offset ≤ input.content.length) :
    Runs (loop 64 (copyNumber input) []) s (fun read s' => s' = s ∧ read = numberText input.content s.offset) := by
  refine Runs.loop (I := fun read s' => s' = s ∧ read.length ≤ 63 ∧ s.offset + read.length ≤ input.content.length ∧
      read ++ ((input.content.drop (s.offset + read.length)).take (63 - read.length)).takeWhile isNumberByte =
        numberText input.content s.offset)
    (m := fun read _ => 63 - read.length) ?_ ⟨rfl, by simp, by simpa using hle, rfl⟩ (by simp)
  intro read s' hread
  obtain ⟨rfl, hlength, hroom, hread⟩ := hread
  have hstop (hnil : ((input.content.drop (s'.offset + read.length)).take (63 - read.length)).takeWhile
      isNumberByte = []) : read = numberText input.content s'.offset := by
    rw [hnil, List.append_nil] at hread
    exact hread
  unfold copyNumber
  rw [Runs.ite_iff]
  constructor
  · intro hlt
    rw [Runs.bind_iff, runs_canAccess, Runs.ite_iff]
    simp only [decide_eq_true_eq]
    constructor
    · intro haccess
      have hdrop := List.drop_eq_getElem_cons haccess
      have htake : 63 - read.length = 63 - (read.length + 1) + 1 := by omega
      rw [Runs.bind_iff, runs_byteAt]
      refine ⟨_, List.getElem?_eq_getElem haccess, ?_⟩
      rw [Runs.ite_iff]
      constructor
      · intro hbyte
        rw [Runs.pure_iff]
        refine ⟨⟨rfl, ?_, ?_, ?_⟩, ?_⟩
        · rw [List.length_append, List.length_singleton]
          omega
        · rw [List.length_append, List.length_singleton]
          omega
        · rw [hdrop, htake, List.take_succ_cons, List.takeWhile_cons_of_pos hbyte] at hread
          rw [List.length_append, List.length_singleton, List.append_assoc]
          exact hread
        · simp only [List.length_append, List.length_singleton]
          omega
      · intro hbyte
        rw [Runs.pure_iff]
        refine ⟨rfl, hstop ?_⟩
        rw [hdrop, htake, List.take_succ_cons, List.takeWhile_cons_of_neg hbyte]
    · intro haccess
      rw [Runs.pure_iff]
      refine ⟨rfl, hstop ?_⟩
      rw [List.drop_eq_nil_of_le (by omega), List.take_nil, List.takeWhile_nil]
  · intro hlt
    rw [Runs.pure_iff]
    refine ⟨rfl, hstop ?_⟩
    have hzero : 63 - read.length = 0 := by omega
    rw [hzero]
    rfl

/-- The item that a number leaves. -/
def Item.withNumber (item : Item) (text : Text) : Item :=
  { item with type := .number, valueint := saturated (strtod text), valuedouble := strtod text }

theorem runs_parseNumber {Q : Option Item → ParseBuffer → Prop} (hle : s.offset ≤ input.content.length)
    (hnone : decimalLength (numberText input.content s.offset) = 0 → Q none s)
    (hsome : decimalLength (numberText input.content s.offset) ≠ 0 →
      Q (some (item.withNumber (numberText input.content s.offset)))
        { s with offset := s.offset + decimalLength (numberText input.content s.offset) }) :
    Runs (parseNumber input item) s Q := by
  unfold parseNumber
  rw [Runs.bind_iff]
  refine (runs_copyNumber hle).mono fun read s' hread => ?_
  obtain ⟨rfl, rfl⟩ := hread
  rw [Runs.ite_iff]
  constructor
  · exact fun hzero => Runs.pure_iff.mpr (hnone hzero)
  · intro hpos
    rw [Runs.bind_iff, runs_advance, Runs.pure_iff]
    exact hsome hpos

/-! ## Values -/

/-- An item that no value has been read into. -/
structure Item.Fresh (item : Item) : Prop where
  valuestring : item.valuestring = none
  child : item.child = []

/-- What reading a value from `s` comes to. -/
structure ValueRead (input : Input) (s : ParseBuffer) (base : Multiset Nat) (item : Item) (r : Option Item)
    (s' : ParseBuffer) : Prop where
  le : s'.offset ≤ input.content.length
  holds : s'.heap.Holds base (r.getD item).blocks
  depth : ∀ item', r = some item' → s'.depth = s.depth
  later : ∀ item', r = some item' → s.offset < s'.offset
  wellFormed : ∀ item', r = some item' → item'.WellFormed (nestingLimit - s.depth)
  string : ∀ item', r = some item' → item'.string = item.string
  size : ∀ item', r = some item' → s.offset + item'.size ≤ s'.offset + Str.size item.string

theorem ValueRead.failed {s' : ParseBuffer} (hle : s'.offset ≤ input.content.length)
    (hholds : s'.heap.Holds base item.blocks) : ValueRead input s base item none s' where
  le := hle
  holds := hholds
  depth _ h := by cases h
  later _ h := by cases h
  wellFormed _ h := by cases h
  string _ h := by cases h
  size _ h := by cases h

/-- A value without children. -/
theorem ValueRead.leaf {s' : ParseBuffer} {item' : Item} (hle : s'.offset ≤ input.content.length)
    (hholds : s'.heap.Holds base item'.blocks) (hdepth : s'.depth = s.depth) (hsound : item'.Sound)
    (hchild : item'.child = []) (hstring : item'.string = item.string)
    (hsize : s.offset + 1 + Str.size item'.valuestring ≤ s'.offset) : ValueRead input s base item (some item') s' where
  le := hle
  holds := hholds
  depth _ _ := hdepth
  later _ _ := by omega
  wellFormed _ h := by
    cases h
    exact Item.wellFormed_of_child_nil hsound hchild
  string _ h := by
    cases h
    exact hstring
  size _ h := by
    cases h
    rw [Item.size_eq, hchild, sizeAll_nil, hstring]
    omega

theorem Item.Sound.of_leaf {item : Item} (htype : item.type ≠ .invalid)
    (hvaluestring : item.valuestring.isSome ↔ item.type = .string) (hchild : item.child = [])
    (hnumber : item.type = .number → item.valueint = saturated item.valuedouble) : item.Sound where
  type := htype
  valuestring := hvaluestring
  child h := absurd hchild h
  number := hnumber
  named c hc := by
    rw [hchild] at hc
    cases hc

end Tle.Cjson
