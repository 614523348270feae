import Tle.Cjson.Parse

/-!
# What the accesses to the buffer and to the heap come to
-/

namespace Tle.Cjson
open Tle.Lib Tle.Lib.Comp

variable {input : Input} {s : ParseBuffer} {n : Nat}

/-! ## Accesses -/

@[simp] theorem runs_canAccess {Q : Bool → ParseBuffer → Prop} :
    Runs (canAccess input n) s Q ↔ Q (s.offset + n < input.content.length) s := by
  simp [canAccess]

@[simp] theorem runs_byteAt {Q : Char → ParseBuffer → Prop} :
    Runs (byteAt input n) s Q ↔ ∃ c, input.content[s.offset + n]? = some c ∧ Q c s := by
  simp [byteAt]

@[simp] theorem runs_contentAt {Q : Char → ParseBuffer → Prop} :
    Runs (contentAt input n) s Q ↔ ∃ c, input.content[n]? = some c ∧ Q c s := by
  simp [contentAt]

@[simp] theorem runs_isAt {c : Char} {Q : Bool → ParseBuffer → Prop} :
    Runs (isAt input c) s Q ↔ Q (input.content[s.offset]? = some c) s := by
  unfold isAt
  rw [Runs.bind_iff, runs_canAccess, Runs.ite_iff]
  by_cases h : s.offset < input.content.length
  · simp [h]
  · simp [h]

/-- The bytes from `o` on start with those of `word`. -/
def hasWord (content word : Text) (o : Nat) : Bool :=
  o + word.length ≤ content.length && (content.drop o).take word.length = word

theorem hasWord_iff {content word : Text} {o : Nat} (ho : o ≤ content.length) :
    hasWord content word o = true ↔ word <+: content.drop o := by
  simp only [hasWord, Bool.and_eq_true, decide_eq_true_eq]
  constructor
  · intro h
    exact List.prefix_iff_eq_take.mpr h.2.symm
  · intro h
    have hlength := h.length_le
    rw [List.length_drop] at hlength
    exact ⟨by omega, (List.prefix_iff_eq_take.mp h).symm⟩

theorem hasWord_le {content word : Text} {o : Nat} (h : hasWord content word o = true) :
    o + word.length ≤ content.length := by
  simp only [hasWord, Bool.and_eq_true, decide_eq_true_eq] at h
  exact h.1

@[simp] theorem runs_isAtWord {word : Text} {Q : Bool → ParseBuffer → Prop} :
    Runs (isAtWord input word) s Q ↔ Q (hasWord input.content word s.offset) s := by
  simp [isAtWord, hasWord]

@[simp] theorem runs_hexAt {Q : Text → ParseBuffer → Prop} :
    Runs (hexAt input n) s Q ↔ n + 4 ≤ input.content.length ∧ Q ((input.content.drop n).take 4) s := by
  simp [hexAt]

@[simp] theorem runs_advance {Q : Unit → ParseBuffer → Prop} :
    Runs (advance n) s Q ↔ Q () { s with offset := s.offset + n } := by
  simp [advance]

@[simp] theorem runs_setOffset {Q : Unit → ParseBuffer → Prop} :
    Runs (setOffset n) s Q ↔ Q () { s with offset := n } := by
  simp [setOffset]

theorem runs_stepBack {Q : Unit → ParseBuffer → Prop} (hpos : 0 < s.offset)
    (hQ : Q () { s with offset := s.offset - 1 }) : Runs stepBack s Q := by
  have hne : s.offset ≠ 0 := by omega
  simp [stepBack, hne, hQ]

@[simp] theorem runs_write {size : Nat} {output bytes : Text} {Q : Text → ParseBuffer → Prop} :
    Runs (write size output bytes) s Q ↔ output.length + bytes.length ≤ size ∧ Q (output ++ bytes) s := by
  unfold write
  split
  · simp [*]
  · simp [*]

@[simp] theorem runs_allocate {Q : Option Nat → ParseBuffer → Prop} :
    Runs (allocate input) s Q ↔ Q (s.heap.allocate (input.allocates s.heap.count)).1
      { s with heap := (s.heap.allocate (input.allocates s.heap.count)).2 } := by
  constructor
  · intro h
    obtain ⟨b, s', heq, hQ⟩ := h
    cases heq
    exact hQ
  · exact fun h => ⟨_, _, rfl, h⟩

/-! ## White space -/

/-- The first place from `o` on that holds no white space. -/
def spacesEnd (content : Text) (o : Nat) : Nat := o + ((content.drop o).takeWhile (· ≤ ' ')).length

/-- Where `buffer_skip_whitespace` comes to from `o`. -/
def afterSpaces (content : Text) (o : Nat) : Nat :=
  if o < content.length ∧ spacesEnd content o = content.length then content.length - 1 else spacesEnd content o

section Spaces

variable {content : Text} {o : Nat} {c : Char}

theorem spacesEnd_ge : o ≤ spacesEnd content o := Nat.le_add_right _ _

theorem spacesEnd_le (ho : o ≤ content.length) : spacesEnd content o ≤ content.length := by
  have hlength := (List.takeWhile_prefix (· ≤ ' ') (l := content.drop o)).length_le
  rw [List.length_drop] at hlength
  unfold spacesEnd
  omega

theorem spacesEnd_of_space (h : content[o]? = some c) (hspace : c ≤ ' ') :
    spacesEnd content o = spacesEnd content (o + 1) := by
  obtain ⟨ho, hc⟩ := List.getElem?_eq_some_iff.mp h
  unfold spacesEnd
  rw [List.drop_eq_getElem_cons ho, hc, List.takeWhile_cons_of_pos (by simpa using hspace), List.length_cons]
  omega

theorem spacesEnd_of_not_space (h : content[o]? = some c) (hspace : ¬c ≤ ' ') : spacesEnd content o = o := by
  obtain ⟨ho, hc⟩ := List.getElem?_eq_some_iff.mp h
  unfold spacesEnd
  rw [List.drop_eq_getElem_cons ho, hc, List.takeWhile_cons_of_neg (by simpa using hspace)]
  rfl

theorem spacesEnd_of_length_le (h : content.length ≤ o) : spacesEnd content o = o := by
  rw [spacesEnd, List.drop_eq_nil_of_le h]
  rfl

theorem afterSpaces_le (ho : o ≤ content.length) : afterSpaces content o ≤ content.length := by
  have hend := spacesEnd_le ho
  unfold afterSpaces
  split <;> omega

theorem le_afterSpaces : o ≤ afterSpaces content o := by
  have hend : o ≤ spacesEnd content o := spacesEnd_ge
  unfold afterSpaces
  split <;> omega

theorem afterSpaces_lt (ho : o < content.length) : afterSpaces content o < content.length := by
  have hend := spacesEnd_le ho.le
  unfold afterSpaces
  split <;> omega

end Spaces

/-- One round takes a space, or ends where there is none. -/
theorem runs_skipSpace :
    Runs (skipSpace input) s (Round.Holds
      (fun _ s' => ∃ o, s' = { s with offset := o } ∧ o ≤ input.content.length ∧
        spacesEnd input.content o = spacesEnd input.content s.offset)
      (fun _ s' => input.content.length - s'.offset) (input.content.length - s.offset)
      (fun _ s' => s' = { s with offset := spacesEnd input.content s.offset })) := by
  unfold skipSpace
  rw [Runs.bind_iff, runs_canAccess, Runs.ite_iff]
  constructor
  · intro hlt
    simp only [decide_eq_true_eq, Nat.add_zero] at hlt
    have hget : input.content[s.offset]? = some input.content[s.offset] := List.getElem?_eq_getElem hlt
    rw [Runs.bind_iff, runs_byteAt]
    refine ⟨input.content[s.offset], hget, ?_⟩
    rw [Runs.ite_iff]
    constructor
    · intro hspace
      simp only [Runs.bind_iff, runs_advance, Runs.pure_iff, Round.Holds]
      exact ⟨⟨s.offset + 1, rfl, hlt, (spacesEnd_of_space hget hspace).symm⟩, by omega⟩
    · intro hspace
      simp only [Runs.pure_iff, Round.Holds]
      rw [spacesEnd_of_not_space hget hspace]
  · intro hnot
    simp only [decide_eq_true_eq, Nat.add_zero, Nat.not_lt] at hnot
    simp only [Runs.pure_iff, Round.Holds]
    rw [spacesEnd_of_length_le hnot]

theorem runs_skipWhitespace {Q : Unit → ParseBuffer → Prop} (hle : s.offset ≤ input.content.length)
    (hQ : Q () { s with offset := afterSpaces input.content s.offset }) : Runs (bufferSkipWhitespace input) s Q := by
  unfold bufferSkipWhitespace
  rw [Runs.bind_iff, runs_canAccess, Runs.ite_iff]
  constructor
  · intro haccess
    simp only [decide_eq_true_eq, Nat.add_zero] at haccess
    have hloop : Runs (loop (input.content.length + 1) (fun _ => skipSpace input) ()) s
        (fun _ s' => s' = { s with offset := spacesEnd input.content s.offset }) := by
      refine Runs.loop (I := fun _ s' => ∃ o, s' = { s with offset := o } ∧ o ≤ input.content.length ∧
        spacesEnd input.content o = spacesEnd input.content s.offset)
        (m := fun _ s' => input.content.length - s'.offset) ?_ ⟨s.offset, rfl, hle, rfl⟩ (by omega)
      intro _ s' hs'
      obtain ⟨o, rfl, ho, hspaces⟩ := hs'
      rw [← hspaces]
      exact runs_skipSpace
    rw [Runs.bind_iff]
    refine hloop.mono fun _ s' hs' => ?_
    subst hs'
    rw [Runs.bind_iff, Runs.get_iff, Runs.ite_iff]
    constructor
    · intro heq
      have heq' : spacesEnd input.content s.offset = input.content.length := heq
      refine runs_stepBack (by rw [heq']; exact Nat.zero_lt_of_lt haccess) ?_
      rw [afterSpaces, if_pos ⟨haccess, heq'⟩] at hQ
      rw [heq']
      exact hQ
    · intro hne
      rw [afterSpaces, if_neg (fun h => hne h.2)] at hQ
      exact Runs.pure_iff.mpr hQ
  · intro hnot
    simp only [decide_eq_true_eq, Nat.add_zero, Nat.not_lt] at hnot
    rw [afterSpaces, if_neg (fun h => Nat.not_lt.mpr hnot h.1), spacesEnd_of_length_le hnot] at hQ
    exact Runs.pure_iff.mpr hQ

end Tle.Cjson
