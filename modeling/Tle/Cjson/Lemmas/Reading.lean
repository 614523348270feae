import Tle.Cjson.Lemmas.Buffer
import Tle.Lib.JsonText

/-!
# What the accesses come to, if there is an outcome
-/

namespace Tle.Cjson
open Tle.Lib Tle.Lib.Comp

variable {input : Input} {s : ParseBuffer} {n : Nat}

@[simp] theorem ends_canAccess {Q : Bool → ParseBuffer → Prop} :
    Ends (canAccess input n) s Q ↔ Q (s.offset + n < input.content.length) s := by
  simp [canAccess]

@[simp] theorem ends_byteAt {Q : Char → ParseBuffer → Prop} :
    Ends (byteAt input n) s Q ↔ ∀ c, input.content[s.offset + n]? = some c → Q c s := by
  simp only [byteAt, Ends.bind_iff, Ends.get_iff, Ends.ofOption_iff]

@[simp] theorem ends_contentAt {Q : Char → ParseBuffer → Prop} :
    Ends (contentAt input n) s Q ↔ ∀ c, input.content[n]? = some c → Q c s := by
  simp only [contentAt, Ends.ofOption_iff]

@[simp] theorem ends_isAt {c : Char} {Q : Bool → ParseBuffer → Prop} :
    Ends (isAt input c) s Q ↔ Q (input.content[s.offset]? = some c) s := by
  unfold isAt
  rw [Ends.bind_iff, ends_canAccess, Ends.ite_iff]
  by_cases h : s.offset < input.content.length
  · simp [h]
  · simp [h]

@[simp] theorem ends_isAtWord {word : Text} {Q : Bool → ParseBuffer → Prop} :
    Ends (isAtWord input word) s Q ↔ Q (hasWord input.content word s.offset) s := by
  simp [isAtWord, hasWord]

@[simp] theorem ends_hexAt {Q : Text → ParseBuffer → Prop} :
    Ends (hexAt input n) s Q ↔ (n + 4 ≤ input.content.length → Q ((input.content.drop n).take 4) s) := by
  simp [hexAt]

@[simp] theorem ends_advance {Q : Unit → ParseBuffer → Prop} :
    Ends (advance n) s Q ↔ Q () { s with offset := s.offset + n } := by
  simp [advance]

@[simp] theorem ends_setOffset {Q : Unit → ParseBuffer → Prop} :
    Ends (setOffset n) s Q ↔ Q () { s with offset := n } := by
  simp [setOffset]

@[simp] theorem ends_stepBack {Q : Unit → ParseBuffer → Prop} :
    Ends stepBack s Q ↔ (s.offset ≠ 0 → Q () { s with offset := s.offset - 1 }) := by
  by_cases h : s.offset = 0
  · simp [stepBack, h]
  · simp [stepBack, h]

@[simp] theorem ends_write {size : Nat} {output bytes : Text} {Q : Text → ParseBuffer → Prop} :
    Ends (write size output bytes) s Q ↔ (output.length + bytes.length ≤ size → Q (output ++ bytes) s) := by
  unfold write
  split
  · simp [*]
  · simp [*]

@[simp] theorem ends_allocate {Q : Option Nat → ParseBuffer → Prop} :
    Ends (allocate input) s Q ↔ Q (s.heap.allocate (input.allocates s.heap.count)).1
      { s with heap := (s.heap.allocate (input.allocates s.heap.count)).2 } := by
  constructor
  · exact fun h => h _ _ rfl
  · intro h a s' heq
    cases heq
    exact h

theorem ends_skipWhitespace {Q : Unit → ParseBuffer → Prop} (hle : s.offset ≤ input.content.length)
    (hQ : Q () { s with offset := afterSpaces input.content s.offset }) : Ends (bufferSkipWhitespace input) s Q :=
  .of_runs (runs_skipWhitespace hle hQ)

/-! ## The text that is left -/

section Left

variable {content t t' : Text} {o : Nat} {c : Char}

theorem getElem?_of_drop (h : content.drop o = c :: t) : content[o]? = some c := by
  rw [← List.head?_drop, h]
  rfl

theorem drop_add (h : content.drop o = t ++ t') : content.drop (o + t.length) = t' := by
  rw [← List.drop_drop, h, List.drop_left]

theorem drop_succ (h : content.drop o = c :: t) : content.drop (o + 1) = t := drop_add (t := [c]) h

theorem length_of_drop (h : content.drop o = c :: t) : o < content.length :=
  (List.getElem?_eq_some_iff.mp (getElem?_of_drop h)).1

theorem getElem?_of_drop_append (h : content.drop o = t ++ c :: t') : content[o + t.length]? = some c :=
  getElem?_of_drop (drop_add h)

theorem isSpace_le {t : Text} (h : JsonText.Spaces t) : ∀ c ∈ t, c ≤ ' ' := by
  intro c hc
  rcases h c hc with rfl | rfl | rfl | rfl <;> decide

/-- White space is skipped up to the next byte. -/
theorem afterSpaces_of_drop (h : content.drop o = t ++ c :: t') (ht : JsonText.Spaces t) (hc : ¬c ≤ ' ') :
    afterSpaces content o = o + t.length := by
  have hspaces : spacesEnd content o = o + t.length := by
    induction t generalizing o with
    | nil => exact spacesEnd_of_not_space (getElem?_of_drop h) hc
    | cons b t ih =>
        have hb := isSpace_le ht b List.mem_cons_self
        rw [spacesEnd_of_space (getElem?_of_drop h) hb,
          ih (drop_succ h) (fun x hx => ht x (List.mem_cons_of_mem _ hx)), List.length_cons]
        omega
  have hlt : o + t.length < content.length := length_of_drop (drop_add h)
  rw [afterSpaces, if_neg (by omega), hspaces]

end Left

end Tle.Cjson
