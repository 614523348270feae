import Tle.Cjson.Lemmas.ReadNumbers
import Tle.Cjson.Lemmas.ReadStrings

/-!
# What `parse_value` makes of a text of the grammar
-/

namespace Tle.Cjson
open Tle.Lib Tle.Lib.Comp Tle.Lib.JsonText

variable {input : Input} {s : ParseBuffer} {item : Item} {t rest : Text} {json : Json} {c : Char} {d level : Nat}

/-- A value of the text `t` has been read to its end, unless an allocation was refused. -/
def ReadsAs (input : Input) (s : ParseBuffer) (item : Item) (t : Text) (json : Json) (r : Option Item)
    (s' : ParseBuffer) : Prop :=
  (r = none ∧ input.Refuses) ∨ ∃ item', r = some item' ∧ item'.json = json ∧ item'.string = item.string ∧
    s'.offset = s.offset + t.length ∧ s'.depth = s.depth

/-! ## The choice by the first byte -/

theorem hasWord_of_head {content word : Text} {o : Nat} (hdrop : content.drop o = c :: t)
    (hne : word.head? ≠ some c) (hword : word ≠ []) : hasWord content word o = false := by
  have ho : o ≤ content.length := (length_of_drop hdrop).le
  rw [Bool.eq_false_iff]
  intro h
  rw [hasWord_iff ho, hdrop] at h
  cases word with
  | nil => exact hword rfl
  | cons b word => exact hne (by rw [List.head?_cons, (List.cons_prefix_cons.mp h).1])

theorem ends_word (word : Text) {item' : Item} (hjson : item'.json = json) (hstring : item'.string = item.string) :
    Ends (do advance word.length; return some item') s (ReadsAs input s item word json) := by
  simp only [Ends.bind_iff, ends_advance, Ends.pure_iff]
  exact Or.inr ⟨item', rfl, hjson, hstring, rfl, rfl⟩

theorem ends_parseValue_of_head {Q : Option Item → ParseBuffer → Prop} (hdrop : input.content.drop s.offset = c :: t)
    (hc : c ≠ 'n' ∧ c ≠ 'f' ∧ c ≠ 't')
    (hQ : Ends (if c = '"' then parseString input item
        else if c = '-' ∨ c.isDigit then parseNumber input item
        else if c = '[' then parseArray input (parseValue input level) item
        else if c = '{' then parseObject input (parseValue input level) item
        else return none) s Q) : Ends (parseValue input (level + 1) item) s Q := by
  have hnull : hasWord input.content "null".toList s.offset = false :=
    hasWord_of_head hdrop (fun h => hc.1 (Option.some.inj h).symm) (by decide)
  have hfalse : hasWord input.content "false".toList s.offset = false :=
    hasWord_of_head hdrop (fun h => hc.2.1 (Option.some.inj h).symm) (by decide)
  have htrue : hasWord input.content "true".toList s.offset = false :=
    hasWord_of_head hdrop (fun h => hc.2.2 (Option.some.inj h).symm) (by decide)
  rw [parseValue, Ends.bind_iff, ends_isAtWord, hnull, if_neg Bool.false_ne_true, Ends.bind_iff, ends_isAtWord, hfalse,
    if_neg Bool.false_ne_true, Ends.bind_iff, ends_isAtWord, htrue, if_neg Bool.false_ne_true, Ends.bind_iff,
    ends_canAccess]
  have haccess : s.offset + 0 < input.content.length := length_of_drop hdrop
  rw [if_neg (by simpa using haccess), Ends.bind_iff, ends_byteAt]
  intro b hb
  rw [Nat.add_zero, getElem?_of_drop hdrop] at hb
  cases hb
  exact hQ

theorem not_space_of_isNumberByte (h : isNumberByte c = true) : ¬c ≤ ' ' := by
  have hsmall : ∀ n < 33, isNumberByte (Char.ofNat n) = false := by decide
  intro hle
  have hlt : c.toNat < 33 := Nat.lt_succ_of_le hle
  have hfalse := hsmall c.toNat hlt
  rw [Char.ofNat_toNat, h] at hfalse
  cases hfalse

/-- The first byte of a value. -/
theorem value_head {m n : Nat} (h : Value m n t json) :
    ∃ c t', t = c :: t' ∧ ¬c ≤ ' ' ∧ c ≠ ']' ∧ c ≠ Char.ofNat 0xEF := by
  cases h with
  | null => exact ⟨_, _, rfl, by decide, by decide, by decide⟩
  | false => exact ⟨_, _, rfl, by decide, by decide, by decide⟩
  | true => exact ⟨_, _, rfl, by decide, by decide, by decide⟩
  | number _ t ht _ =>
      have hne := numeral_ne_nil ht
      have hall := isNumberByte_numeral ht
      cases t with
      | nil => exact absurd rfl hne
      | cons c t =>
          have hc := hall c List.mem_cons_self
          refine ⟨c, t, rfl, ?_, ?_, ?_⟩
          · exact not_space_of_isNumberByte hc
          · intro h
            rw [h] at hc
            cases hc
          · intro h
            rw [h] at hc
            cases hc
  | string => exact ⟨_, _, rfl, by decide, by decide, by decide⟩
  | emptyArray => exact ⟨_, _, rfl, by decide, by decide, by decide⟩
  | array => exact ⟨_, _, rfl, by decide, by decide, by decide⟩
  | emptyObject => exact ⟨_, _, rfl, by decide, by decide, by decide⟩
  | object => exact ⟨_, _, rfl, by decide, by decide, by decide⟩

theorem apart_cons (h : isNumberByte c = false) : Apart (c :: t) := by
  intro b hb
  cases hb
  exact h

theorem apart_spaces {spaces : Text} (hs : Spaces spaces) (h : isNumberByte c = false) :
    Apart (spaces ++ c :: t) := by
  cases spaces with
  | nil => exact apart_cons h
  | cons b spaces =>
      intro b' hb'
      cases hb'
      rcases hs b List.mem_cons_self with rfl | rfl | rfl | rfl <;> decide

/-! ## The loops -/

/-- A loop that has failed to allocate. -/
def Stopped (input : Input) (r : Round (List Item) (List Item × Bool)) : Prop :=
  (∃ items, r = .done (items, false)) ∧ input.Refuses

section Loops

variable {α : Type} {render : α → Text} {R : α → Item → Prop} {closing x : Char} {tail : Text}
  {element : List Item → Parse (Round (List Item) (List Item × Bool))} {items : List Item}
  {parse : Item → Parse (Option Item)}

/-- What a round makes of one element, with the byte `x` behind it. -/
def RoundReads (input : Input) (d : Nat) (closing : Char)
    (element : List Item → Parse (Round (List Item) (List Item × Bool)))
    (render : α → Text) (R : α → Item → Prop) (e : α) : Prop :=
  ∀ items s c x tail, input.content.drop s.offset = c :: (render e ++ x :: tail) → x = ',' ∨ x = closing → s.depth = d →
    Ends (element items) s fun r s' => Stopped input r ∨ ∃ item, R e item ∧ s'.depth = d ∧
      s'.offset = s.offset + 1 + (render e).length ∧
        r = if x = ',' then .next (items ++ [item]) else .done (items ++ [item], true)

theorem ends_elements (hclosing : closing ≠ ',') (first : α) (rest : List α)
    (hread : ∀ e ∈ first :: rest, RoundReads input d closing element render R e)
    (hdrop : input.content.drop s.offset = c :: (render first ++ (continued (rest.map render) ++ closing :: tail)))
    (hdepth : s.depth = d) (n : Nat) :
    Ends (loop n element items) s fun r s' => (r.2 = false ∧ input.Refuses) ∨ ∃ new,
      List.Forall₂ R (first :: rest) new ∧ r = (items ++ new, true) ∧ s'.depth = d ∧
        s'.offset = s.offset + 1 + (render first ++ continued (rest.map render)).length := by
  induction rest generalizing first items s c n with
  | nil =>
      refine Ends.loop fun n => ?_
      have hround := hread first List.mem_cons_self items s c closing tail hdrop (Or.inr rfl) hdepth
      refine hround.mono fun r s' hr => ?_
      rcases hr with ⟨⟨items', rfl⟩, hrefuses⟩ | ⟨item, hitem, hdepth', hoffset, rfl⟩
      · refine ⟨(fun b hb => by cases hb), fun c hc => ?_⟩
        cases hc
        exact Or.inl ⟨rfl, hrefuses⟩
      · rw [if_neg hclosing]
        refine ⟨(fun b hb => by cases hb), fun c hc => ?_⟩
        cases hc
        refine Or.inr ⟨[item], .cons hitem .nil, rfl, hdepth', ?_⟩
        simpa [continued] using hoffset
  | cons second rest ih =>
      refine Ends.loop fun n => ?_
      have hcontinued : continued ((second :: rest).map render) =
          ',' :: (render second ++ continued (rest.map render)) := by
        simp [continued]
      rw [hcontinued, List.cons_append, List.append_assoc] at hdrop
      have hround := hread first List.mem_cons_self items s c ',' _ hdrop (Or.inl rfl) hdepth
      refine hround.mono fun r s' hr => ?_
      rcases hr with ⟨⟨items', rfl⟩, hrefuses⟩ | ⟨item, hitem, hdepth', hoffset, rfl⟩
      · refine ⟨(fun b hb => by cases hb), fun c hc => ?_⟩
        cases hc
        exact Or.inl ⟨rfl, hrefuses⟩
      · rw [if_pos rfl]
        refine ⟨fun b hb => ?_, fun c hc => by cases hc⟩
        cases hb
        have hleft : input.content.drop s'.offset =
            ',' :: (render second ++ (continued (rest.map render) ++ closing :: tail)) := by
          rw [hoffset]
          exact drop_add (drop_succ hdrop)
        refine (ih second (fun e he => hread e (List.mem_cons_of_mem _ he)) hleft hdepth' n).mono fun r s'' hr => ?_
        rcases hr with hstopped | ⟨new, hnew, rfl, hdepth'', hoffset'⟩
        · exact Or.inl hstopped
        · refine Or.inr ⟨item :: new, .cons hitem hnew, by simp, hdepth'', ?_⟩
          rw [hoffset', hoffset, hcontinued]
          simp only [List.length_append, List.length_cons]
          omega

/-- White space behind an element, and the byte after it. -/
theorem ends_nextElement {after : Text} (hdrop : input.content.drop s.offset = after ++ x :: tail)
    (hs : Spaces after) (hx : ¬x ≤ ' ') {Q : Round (List Item) (List Item × Bool) → ParseBuffer → Prop}
    (hQ : Q (if x = ',' then .next items else .done (items, true)) { s with offset := s.offset + after.length }) :
    Ends (nextElement input items) s Q := by
  have hle : s.offset ≤ input.content.length := by
    have hlt := length_of_drop (drop_add hdrop)
    omega
  unfold nextElement
  rw [Ends.bind_iff]
  refine ends_skipWhitespace hle ?_
  rw [afterSpaces_of_drop hdrop hs hx, Ends.bind_iff, ends_isAt]
  simp only [getElem?_of_drop_append hdrop, Option.some.injEq, decide_eq_true_eq]
  split
  · rename_i h
    rw [if_pos h] at hQ
    exact Ends.pure_iff.mpr hQ
  · rename_i h
    rw [if_neg h] at hQ
    exact Ends.pure_iff.mpr hQ

/-- A new item, unless the allocation is refused. -/
theorem ends_newItem {Q : Option Item → ParseBuffer → Prop} (hnone : input.Refuses → ∀ heap, Q none { s with heap })
    (hsome : ∀ heap b, Q (some (Item.zeroed b)) { s with heap }) : Ends (newItem input) s Q := by
  simp only [newItem, bind_pure_comp, Ends.map_iff, ends_allocate]
  cases hok : input.allocates s.heap.count with
  | false => exact hnone ⟨_, hok⟩ _
  | true => exact hsome _ _

theorem comma_or_closing (hclosing : closing = ']' ∨ closing = '}') (hx : x = ',' ∨ x = closing) :
    ¬x ≤ ' ' ∧ isNumberByte x = false := by
  rcases hx with rfl | rfl
  · decide
  · rcases hclosing with rfl | rfl <;> decide

/-- What is known of the values of one level. -/
def ParseReads (input : Input) (d : Nat) (parse : Item → Parse (Option Item)) (t : Text) (json : Json) : Prop :=
  ∀ s item rest, input.content.drop s.offset = t ++ rest → Apart rest → s.depth = d →
    Ends (parse item) s (ReadsAs input s item t json)

/-- White space before a value. -/
theorem ends_skipBefore {before text rest : Text} {n : Nat}
    (hdrop : input.content.drop s.offset = before ++ (text ++ rest))
    (hs : Spaces before) (hvalue : Value 63 n text json) {Q : Unit → ParseBuffer → Prop}
    (hQ : Q () { s with offset := s.offset + before.length }) : Ends (bufferSkipWhitespace input) s Q := by
  obtain ⟨b, text', rfl, hb, -, -⟩ := value_head hvalue
  rw [List.cons_append] at hdrop
  have hle : s.offset ≤ input.content.length := by
    have hlt := length_of_drop (drop_add hdrop)
    omega
  refine ends_skipWhitespace hle ?_
  rw [afterSpaces_of_drop hdrop hs hb]
  exact hQ

theorem roundReads_array {n : Nat} {e : Element} (hs : e.Spaced) (hvalue : Value 63 n e.text e.json)
    (hparse : ParseReads input d parse e.text e.json) :
    RoundReads input d ']' (arrayElement input parse) Element.render (fun e item => item.json = e.json) e := by
  intro items s c x tail hdrop hx hdepth
  obtain ⟨hspace, hnumber⟩ := comma_or_closing (Or.inl rfl) hx
  unfold arrayElement
  rw [Ends.bind_iff]
  refine ends_newItem (fun hrefuses heap => ?_) fun heap b => ?_
  · exact Ends.pure_iff.mpr (Or.inl ⟨⟨items, rfl⟩, hrefuses⟩)
  have hrender : input.content.drop (s.offset + 1) = e.before ++ (e.text ++ (e.after ++ x :: tail)) := by
    have hrest := drop_succ hdrop
    simpa [Element.render] using hrest
  simp only [Ends.bind_iff, ends_advance]
  refine ends_skipBefore hrender hs.before hvalue ?_
  have hvalueAt := drop_add hrender
  refine Ends.mono (hparse _ _ _ hvalueAt (apart_spaces hs.after hnumber) hdepth) fun r s₁ hr => ?_
  rcases hr with ⟨rfl, hrefuses⟩ | ⟨item, rfl, hjson, -, hoffset, hdepth₁⟩
  · exact Ends.pure_iff.mpr (Or.inl ⟨⟨_, rfl⟩, hrefuses⟩)
  · simp only at hoffset hdepth₁ ⊢
    have hafter : input.content.drop s₁.offset = e.after ++ x :: tail := by
      rw [hoffset]
      exact drop_add hvalueAt
    refine ends_nextElement hafter hs.after hspace ?_
    refine Or.inr ⟨item, hjson, hdepth₁.trans hdepth, ?_, rfl⟩
    simp only [hoffset, Element.render, List.length_append]
    omega

theorem roundReads_object {n : Nat} {m : Member} (hs : m.Spaced) (hvalue : Value 63 n m.value.text m.value.json)
    (hparse : ParseReads input d parse m.value.text m.value.json) :
    RoundReads input d '}' (objectMember input parse) Member.render
      (fun m item => (Str.text item.string, item.json) = m.json) m := by
  intro items s c x tail hdrop hx hdepth
  obtain ⟨hspace, hnumber⟩ := comma_or_closing (Or.inr rfl) hx
  unfold objectMember
  rw [Ends.bind_iff]
  refine ends_newItem (fun hrefuses heap => ?_) fun heap b => ?_
  · exact Ends.pure_iff.mpr (Or.inl ⟨⟨items, rfl⟩, hrefuses⟩)
  have hrender : input.content.drop (s.offset + 1) = m.before ++ '"' :: (m.literal ++ '"' :: (m.after ++ ':' ::
      (m.value.before ++ (m.value.text ++ (m.value.after ++ x :: tail))))) := by
    have hrest := drop_succ hdrop
    simpa [Member.render, Element.render] using hrest
  have haccess : s.offset + 1 + m.before.length < input.content.length := length_of_drop (drop_add hrender)
  simp only
  rw [Ends.bind_iff, ends_canAccess]
  simp only
  rw [if_neg (by simp only [Bool.not_eq_true', decide_eq_false_iff_not, not_not]; omega)]
  simp only [Ends.bind_iff, ends_advance]
  refine ends_skipWhitespace (by simp only; omega) ?_
  simp only [afterSpaces_of_drop hrender hs.before (by decide)]
  have hstring := drop_add hrender
  refine Ends.mono (ends_parseString hs.literal hstring) fun r s₁ hr => ?_
  rcases hr with ⟨rfl, hrefuses⟩ | ⟨b', rfl, hoffset, hdepth₁⟩
  · exact Ends.pure_iff.mpr (Or.inl ⟨⟨_, rfl⟩, hrefuses⟩)
  simp only at hoffset hdepth₁ ⊢
  have hcolon : input.content.drop s₁.offset = m.after ++ ':' ::
      (m.value.before ++ (m.value.text ++ (m.value.after ++ x :: tail))) := by
    have hrest := drop_add (t := m.literal ++ ['"']) (by simpa using drop_succ hstring)
    rw [hoffset]
    simpa [Nat.add_assoc, Nat.add_comm, Nat.add_left_comm] using hrest
  have hcolonAt := drop_add hcolon
  have hle : s₁.offset + m.after.length < input.content.length := length_of_drop hcolonAt
  rw [Ends.bind_iff]
  refine ends_skipWhitespace (by omega) ?_
  rw [afterSpaces_of_drop hcolon hs.after (by decide), Ends.bind_iff, ends_isAt]
  simp only
  rw [getElem?_of_drop hcolonAt, if_neg (by simp)]
  simp only [Ends.bind_iff, ends_advance]
  have hbefore := drop_succ hcolonAt
  refine ends_skipBefore hbefore hs.value.before hvalue ?_
  have hvalueAt := drop_add hbefore
  refine Ends.mono (hparse _ _ _ hvalueAt (apart_spaces hs.value.after hnumber) (hdepth₁.trans hdepth))
    fun r s₂ hr => ?_
  rcases hr with ⟨rfl, hrefuses⟩ | ⟨item, rfl, hjson, hname, hoffset₂, hdepth₂⟩
  · exact Ends.pure_iff.mpr (Or.inl ⟨⟨_, rfl⟩, hrefuses⟩)
  · simp only at hoffset₂ hdepth₂ ⊢
    have hafter : input.content.drop s₂.offset = m.value.after ++ x :: tail := by
      rw [hoffset₂]
      exact drop_add hvalueAt
    refine ends_nextElement hafter hs.value.after hspace ?_
    refine Or.inr ⟨item, ?_, (hdepth₂.trans hdepth₁).trans hdepth, ?_, rfl⟩
    · rw [hjson, hname]
      rfl
    · simp only [hoffset₂, hoffset, Member.render, Element.render, List.length_append, List.length_cons]
      omega

/-! ## The brackets -/

theorem ends_dropItems {items : List Item} : Ends (dropItems items) s (fun r _ => r = none) := by
  unfold dropItems
  rw [Ends.bind_iff]
  intro _ s' _
  exact Ends.pure_iff.mpr rfl

theorem ends_closeItem {type : ItemType} {items : List Item} {Q : Option Item → ParseBuffer → Prop}
    (hQ : Q (some { item with type := type, child := items }) { s with depth := s.depth - 1, offset := s.offset + 1 }) :
    Ends (closeItem item type items) s Q := by
  simp only [closeItem, Ends.bind_iff, Ends.modify_iff, Ends.pure_iff]
  exact hQ

/-- What the brackets of a container hold has been read. -/
def Closes (input : Input) (s : ParseBuffer) (item : Item) (type : ItemType) (n : Nat) (P : List Item → Prop)
    (r : Option Item) (s' : ParseBuffer) : Prop :=
  (r = none ∧ input.Refuses) ∨ ∃ items, P items ∧ r = some { item with type := type, child := items } ∧
    s'.offset = s.offset + n ∧ s'.depth = s.depth

variable {opening : Char} {opens : Parse Bool} {type : ItemType} {spaces : Text}

theorem ends_parseContainer_empty (hdepth : s.depth < nestingLimit) (hopens : ∀ s : ParseBuffer,
      input.content[s.offset]? = some opening → Ends opens s (fun r s' => r = true ∧ s' = s))
    (hclosing : ¬closing ≤ ' ') (hs : Spaces spaces)
    (hdrop : input.content.drop s.offset = opening :: (spaces ++ closing :: tail)) :
    Ends (parseContainer input opens closing type element item) s
      (Closes input s item type (spaces.length + 2) (· = [])) := by
  unfold parseContainer
  rw [Ends.bind_iff, Ends.get_iff, if_neg (Nat.not_le_of_lt hdepth), Ends.bind_iff, Ends.modify_iff, Ends.bind_iff]
  refine Ends.mono (hopens _ (getElem?_of_drop hdrop)) fun r s' hr => ?_
  obtain ⟨rfl, rfl⟩ := hr
  have hrest := drop_succ hdrop
  rw [if_neg (by simp)]
  simp only [Ends.bind_iff, ends_advance]
  refine ends_skipWhitespace (length_of_drop hdrop) ?_
  rw [afterSpaces_of_drop hrest hs hclosing, ends_isAt]
  simp only
  rw [getElem?_of_drop_append hrest, if_pos (by simp)]
  refine ends_closeItem (Or.inr ⟨[], rfl, rfl, ?_, ?_⟩)
  · simp only
    omega
  · simp

theorem ends_parseContainer (hdepth : s.depth < nestingLimit) (hopens : ∀ s : ParseBuffer,
      input.content[s.offset]? = some opening → Ends opens s (fun r s' => r = true ∧ s' = s))
    (hclosing : closing ≠ ',') (hs : Spaces spaces) (first : α) (rest : List α)
    (hfirst : ∃ b t, render first = b :: t ∧ ¬b ≤ ' ' ∧ b ≠ closing)
    (hread : ∀ e ∈ first :: rest, RoundReads input (s.depth + 1) closing element render R e)
    (hdrop : input.content.drop s.offset =
      opening :: (spaces ++ (render first ++ (continued (rest.map render) ++ closing :: tail)))) :
    Ends (parseContainer input opens closing type element item) s (Closes input s item type
      (spaces.length + (render first ++ continued (rest.map render)).length + 2) (List.Forall₂ R (first :: rest))) := by
  obtain ⟨b, t, hb, hspace, hne⟩ := hfirst
  unfold parseContainer
  rw [Ends.bind_iff, Ends.get_iff, if_neg (Nat.not_le_of_lt hdepth), Ends.bind_iff, Ends.modify_iff, Ends.bind_iff]
  refine Ends.mono (hopens _ (getElem?_of_drop hdrop)) fun r s' hr => ?_
  obtain ⟨rfl, rfl⟩ := hr
  have hrest := drop_succ hdrop
  have hfirstAt := drop_add hrest
  have hbyte : input.content[s.offset + 1 + spaces.length]? = some b := by
    rw [hb, List.cons_append] at hfirstAt
    exact getElem?_of_drop hfirstAt
  obtain ⟨hlt, -⟩ := List.getElem?_eq_some_iff.mp hbyte
  rw [if_neg (by simp)]
  simp only [Ends.bind_iff, ends_advance]
  refine ends_skipWhitespace (length_of_drop hdrop) ?_
  have hspaces : afterSpaces input.content (s.offset + 1) = s.offset + 1 + spaces.length := by
    rw [hb, List.cons_append] at hrest
    exact afterSpaces_of_drop hrest hs hspace
  rw [hspaces, ends_isAt]
  simp only
  rw [hbyte, if_neg (by simpa using hne), Ends.bind_iff, ends_canAccess]
  simp only
  rw [if_neg (by simpa using hlt), Ends.bind_iff, ends_stepBack]
  intro _
  -- the loop starts at the byte in front of the first element
  have hfront : ∃ c, input.content.drop (s.offset + spaces.length) =
      c :: (render first ++ (continued (rest.map render) ++ closing :: tail)) := by
    have hlt' : s.offset + spaces.length < input.content.length := by omega
    refine ⟨input.content[s.offset + spaces.length], (List.drop_eq_getElem_cons hlt').trans ?_⟩
    have hsucc : s.offset + spaces.length + 1 = s.offset + 1 + spaces.length := by omega
    rw [hsucc, hfirstAt]
  obtain ⟨c, hfront⟩ := hfront
  have hoffset : s.offset + 1 + spaces.length - 1 = s.offset + spaces.length := by omega
  rw [Ends.bind_iff]
  simp only [hoffset]
  refine Ends.mono (ends_elements hclosing first rest hread hfront rfl _) fun r s' hr => ?_
  rcases hr with ⟨hfalse, hrefuses⟩ | ⟨new, hnew, rfl, hdepth', hoffset'⟩
  · obtain ⟨items, ok⟩ := r
    simp only at hfalse
    subst hfalse
    exact ends_dropItems.mono fun r _ hr => Or.inl ⟨hr, hrefuses⟩
  · have hend : input.content[s'.offset]? = some closing := by
      have hlast := drop_add (t := render first ++ continued (rest.map render))
        (by rw [List.append_assoc]; exact drop_succ hfront)
      rw [hoffset']
      exact getElem?_of_drop hlast
    simp only [List.nil_append]
    rw [Ends.bind_iff, ends_isAt, hend, if_pos (by simp)]
    refine ends_closeItem (Or.inr ⟨new, hnew, rfl, ?_, ?_⟩)
    · simp only [hoffset']
      omega
    · simp only [hdepth']
      omega

end Loops

/-! ## Values -/

theorem map_eq_of_forall₂ {α β γ : Type} {f : α → γ} {g : β → γ} {as : List α} {bs : List β}
    (h : List.Forall₂ (fun a b => g b = f a) as bs) : bs.map g = as.map f := by
  induction h with
  | nil => rfl
  | cons hab _ ih => rw [List.map_cons, List.map_cons, hab, ih]

theorem numeral_head (h : Numeral t) : ∃ c t', t = c :: t' ∧ (c = '-' ∨ c.isDigit = true) := by
  obtain ⟨sign, whole, fraction, exponent, hsign, hwhole, -, -⟩ := h
  rcases hsign with rfl | rfl
  · obtain ⟨c, ds, rfl, hc⟩ := digits_head hwhole.1
    exact ⟨c, _, rfl, Or.inr hc⟩
  · exact ⟨'-', _, rfl, Or.inl rfl⟩

theorem ends_parseNumber (h : Numeral t) (hlength : t.length ≤ 63) (hdrop : input.content.drop s.offset = t ++ rest)
    (hrest : Apart rest) :
    Ends (parseNumber input item) s (ReadsAs input s item t (.number (strtod t).toRat)) := by
  have htext := numberText_numeral h hlength hdrop hrest
  have hread := decimalLength_numeral h
  have hpos := List.length_pos_iff.mpr (numeral_ne_nil h)
  have hle : s.offset ≤ input.content.length := by
    obtain ⟨c, t', rfl, -⟩ := numeral_head h
    exact (length_of_drop hdrop).le
  refine .of_runs (runs_parseNumber hle (fun hzero => ?_) fun _ => ?_)
  · rw [htext, hread] at hzero
    omega
  · rw [htext, hread]
    refine Or.inr ⟨_, rfl, ?_, rfl, rfl, rfl⟩
    rw [Item.json_eq]
    rfl

/-- The items of a container, as the value of the whole. -/
theorem ends_closed {type : ItemType} {n : Nat} {P : List Item → Prop} {p : Parse (Option Item)}
    (h : Ends p s (Closes input s item type n P)) (hlength : n = t.length)
    (hjson : ∀ items, P items → ({ item with type := type, child := items } : Item).json = json) :
    Ends p s (ReadsAs input s item t json) := by
  refine h.mono fun r s' hr => ?_
  rcases hr with hstopped | ⟨items, hitems, rfl, hoffset, hdepth⟩
  · exact Or.inl hstopped
  · refine Or.inr ⟨_, rfl, hjson items hitems, rfl, ?_, hdepth⟩
    rw [hoffset, hlength]

/-- A text of the grammar is read to its end as the value it stands for, unless an allocation is refused. -/
theorem ends_parseValue {n : Nat} (h : Value 63 n t json) (level : Nat)
    (hdrop : input.content.drop s.offset = t ++ rest) (hrest : Apart rest) (hdepth : s.depth + n ≤ nestingLimit) :
    Ends (parseValue input level item) s (ReadsAs input s item t json) := by
  induction h generalizing level s item rest with
  | null n =>
      cases level with
      | zero => exact .undefined
      | succ level =>
          have hword : hasWord input.content "null".toList s.offset = true :=
            (hasWord_iff (length_of_drop hdrop).le).mpr (by rw [hdrop]; exact List.prefix_append _ _)
          rw [parseValue, Ends.bind_iff, ends_isAtWord, if_pos hword]
          refine ends_word ['n', 'u', 'l', 'l'] ?_ rfl
          rw [Item.json_eq]
          rfl
  | false n =>
      cases level with
      | zero => exact .undefined
      | succ level =>
          have hnull : hasWord input.content "null".toList s.offset = false :=
            hasWord_of_head hdrop (by decide) (by decide)
          have hword : hasWord input.content "false".toList s.offset = true :=
            (hasWord_iff (length_of_drop hdrop).le).mpr (by rw [hdrop]; exact List.prefix_append _ _)
          rw [parseValue, Ends.bind_iff, ends_isAtWord, hnull, if_neg Bool.false_ne_true, Ends.bind_iff, ends_isAtWord,
            if_pos hword]
          refine ends_word ['f', 'a', 'l', 's', 'e'] ?_ rfl
          rw [Item.json_eq]
          rfl
  | true n =>
      cases level with
      | zero => exact .undefined
      | succ level =>
          have hnull : hasWord input.content "null".toList s.offset = false :=
            hasWord_of_head hdrop (by decide) (by decide)
          have hfalse : hasWord input.content "false".toList s.offset = false :=
            hasWord_of_head hdrop (by decide) (by decide)
          have hword : hasWord input.content "true".toList s.offset = true :=
            (hasWord_iff (length_of_drop hdrop).le).mpr (by rw [hdrop]; exact List.prefix_append _ _)
          rw [parseValue, Ends.bind_iff, ends_isAtWord, hnull, if_neg Bool.false_ne_true, Ends.bind_iff, ends_isAtWord,
            hfalse, if_neg Bool.false_ne_true, Ends.bind_iff, ends_isAtWord, if_pos hword]
          refine ends_word ['t', 'r', 'u', 'e'] ?_ rfl
          rw [Item.json_eq]
          rfl
  | number n t ht hlength =>
      cases level with
      | zero => exact .undefined
      | succ level =>
          obtain ⟨c, t', rfl, hc⟩ := numeral_head ht
          have hletters : c ≠ 'n' ∧ c ≠ 'f' ∧ c ≠ 't' ∧ c ≠ '"' := by
            refine ⟨?_, ?_, ?_, ?_⟩ <;>
            · intro h
              rw [h] at hc
              rcases hc with hc | hc <;> cases hc
          refine ends_parseValue_of_head (by simpa using hdrop) ⟨hletters.1, hletters.2.1, hletters.2.2.1⟩ ?_
          rw [if_neg hletters.2.2.2, if_pos hc]
          exact ends_parseNumber ht hlength hdrop hrest
  | string n t u ht =>
      cases level with
      | zero => exact .undefined
      | succ level =>
          have hdrop' : input.content.drop s.offset = '"' :: (t ++ '"' :: rest) := by simpa using hdrop
          refine ends_parseValue_of_head hdrop' (by decide) ?_
          rw [if_pos rfl]
          refine (ends_parseString ht hdrop').mono fun r s' hr => ?_
          rcases hr with hstopped | ⟨b, rfl, hoffset, hdepth'⟩
          · exact Or.inl hstopped
          · refine Or.inr ⟨_, rfl, ?_, rfl, ?_, hdepth'⟩
            · rw [Item.json_eq]
              rfl
            · simp [hoffset]
  | emptyArray n spaces hs =>
      cases level with
      | zero => exact .undefined
      | succ level =>
          have hdrop' : input.content.drop s.offset = '[' :: (spaces ++ ']' :: rest) := by simpa using hdrop
          refine ends_parseValue_of_head hdrop' (by decide) ?_
          rw [if_neg (by decide), if_neg (by decide), if_pos rfl]
          refine ends_closed (ends_parseContainer_empty (by omega) (fun s' hs' => ?_) (by decide) hs hdrop') (by simp)
            fun items hitems => ?_
          · simp [hs']
          · rw [Item.json_eq, hitems, jsonAll_eq]
            rfl
  | emptyObject n spaces hs =>
      cases level with
      | zero => exact .undefined
      | succ level =>
          have hdrop' : input.content.drop s.offset = '{' :: (spaces ++ '}' :: rest) := by simpa using hdrop
          refine ends_parseValue_of_head hdrop' (by decide) ?_
          rw [if_neg (by decide), if_neg (by decide), if_neg (by decide), if_pos rfl]
          refine ends_closed (ends_parseContainer_empty (by omega) (fun s' hs' => ?_) (by decide) hs hdrop') (by simp)
            fun items hitems => ?_
          · simp [hs']
          · rw [Item.json_eq, hitems, jsonAll_eq]
            rfl
  | array n first more hs hvalues ih =>
      cases level with
      | zero => exact .undefined
      | succ level =>
          have hparse (e : Element) (he : e ∈ first :: more) :
              ParseReads input (s.depth + 1) (parseValue input level) e.text e.json := by
            intro s' item' rest' hdrop' hrest' hdepth'
            exact ih e he level hdrop' hrest' (by omega)
          have hread : ∀ e ∈ { first with before := [] } :: more, RoundReads input (s.depth + 1) ']'
              (arrayElement input (parseValue input level)) Element.render (fun e item => item.json = e.json) e := by
            intro e he
            rcases List.mem_cons.mp he with rfl | he
            · have hfirst := List.mem_cons_self (a := first) (l := more)
              exact roundReads_array ⟨(fun c hc => by cases hc), (hs first hfirst).after⟩ (hvalues first hfirst)
                (hparse first hfirst)
            · have hmore := List.mem_cons_of_mem first he
              exact roundReads_array (hs e hmore) (hvalues e hmore) (hparse e hmore)
          obtain ⟨b, t, hb, hspace, hne, -⟩ := value_head (hvalues first List.mem_cons_self)
          have hdrop' : input.content.drop s.offset = '[' :: (first.before ++
              (({ first with before := [] } : Element).render ++
                (continued (more.map Element.render) ++ ']' :: rest))) := by
            simpa [Element.render] using hdrop
          refine ends_parseValue_of_head hdrop' (by decide) ?_
          rw [if_neg (by decide), if_neg (by decide), if_pos rfl]
          refine ends_closed (ends_parseContainer (by omega) (fun s' hs' => by simp [hs']) (by decide)
            (hs first List.mem_cons_self).before _ more ⟨b, t ++ first.after, by simp [Element.render, hb], hspace, hne⟩
            hread hdrop') ?_ fun items hitems => ?_
          · simp only [Element.render, List.length_append, List.length_cons, List.length_nil]
            omega
          · have hmap := map_eq_of_forall₂ hitems
            rw [Item.json_eq, jsonAll_eq]
            simp only [jsonOf, List.map_map, Function.comp_def]
            rw [hmap]
            rfl
  | object n first more hs hvalues ih =>
      cases level with
      | zero => exact .undefined
      | succ level =>
          have hparse (e : Member) (he : e ∈ first :: more) :
              ParseReads input (s.depth + 1) (parseValue input level) e.value.text e.value.json := by
            intro s' item' rest' hdrop' hrest' hdepth'
            exact ih e he level hdrop' hrest' (by omega)
          have hread : ∀ e ∈ { first with before := [] } :: more, RoundReads input (s.depth + 1) '}'
              (objectMember input (parseValue input level)) Member.render
              (fun m item => (Str.text item.string, item.json) = m.json) e := by
            intro e he
            rcases List.mem_cons.mp he with rfl | he
            · have hfirst := List.mem_cons_self (a := first) (l := more)
              have hspaced := hs first hfirst
              exact roundReads_object ⟨(fun c hc => by cases hc), hspaced.after, hspaced.literal, hspaced.value⟩
                (hvalues first hfirst) (hparse first hfirst)
            · have hmore := List.mem_cons_of_mem first he
              exact roundReads_object (hs e hmore) (hvalues e hmore) (hparse e hmore)
          have hdrop' : input.content.drop s.offset = '{' :: (first.before ++
              (({ first with before := [] } : Member).render ++
                (continued (more.map Member.render) ++ '}' :: rest))) := by
            simpa [Member.render] using hdrop
          refine ends_parseValue_of_head hdrop' (by decide) ?_
          rw [if_neg (by decide), if_neg (by decide), if_neg (by decide), if_pos rfl]
          refine ends_closed (ends_parseContainer (by omega) (fun s' hs' => by simp [hs']) (by decide)
            (hs first List.mem_cons_self).before _ more ⟨'"', _, rfl, by decide, by decide⟩ hread hdrop') ?_
            fun items hitems => ?_
          · simp only [Member.render, List.length_append, List.length_cons, List.length_nil]
            omega
          · have hmap := map_eq_of_forall₂ hitems
            rw [Item.json_eq, jsonAll_eq]
            simp only [jsonOf]
            rw [hmap]
            rfl

end Tle.Cjson
