import Tle.Cjson.Lemmas.Values

/-!
# What reading arrays and objects comes to
-/

namespace Tle.Cjson
open Tle.Lib Tle.Lib.Comp

variable {input : Input} {s s' : ParseBuffer} {base : Multiset Nat} {item : Item} {items : List Item} {start d : Nat}
  {type : ItemType} {parse : Item → Parse (Option Item)}
  {element : List Item → Parse (Round (List Item) (List Item × Bool))}

/-- The items that a loop has read since `start`, inside of `d` brackets. -/
structure Elements (input : Input) (start d : Nat) (base : Multiset Nat) (type : ItemType) (items : List Item)
    (s : ParseBuffer) : Prop where
  depth : s.depth = d
  ge : start + sizeAll items ≤ s.offset
  le : s.offset ≤ input.content.length
  holds : s.heap.Holds base (blocksAll items)
  wellFormed : ∀ i ∈ items, i.WellFormed (nestingLimit - d)
  named : ∀ i ∈ items, i.string.isSome ↔ type = .object

/-- The items that are dropped when a loop has failed. -/
structure Dropped (input : Input) (base : Multiset Nat) (items : List Item) (s : ParseBuffer) : Prop where
  le : s.offset ≤ input.content.length
  holds : s.heap.Holds base (blocksAll items)
  nested : ∀ i ∈ items, i.Nested nestingLimit

/-- What the loop ends with. -/
def Ended (input : Input) (start d : Nat) (base : Multiset Nat) (type : ItemType) (r : List Item × Bool)
    (s : ParseBuffer) : Prop :=
  Dropped input base r.1 s ∧ (r.2 = true → Elements input start d base type r.1 s)

/-- What a round of the loop does. -/
def ElementSpec (input : Input) (start d : Nat) (type : ItemType)
    (element : List Item → Parse (Round (List Item) (List Item × Bool))) : Prop :=
  ∀ base items s, Elements input start d base type items s → s.offset < input.content.length →
    Runs (element items) s (Round.Holds
      (fun items s => Elements input start d base type items s ∧ s.offset < input.content.length)
      (fun _ s => input.content.length - s.offset) (input.content.length - s.offset)
      (Ended input start d base type))

/-- What reading a value inside of `d` brackets does. -/
def ValueSpec (input : Input) (d : Nat) (parse : Item → Parse (Option Item)) : Prop :=
  ∀ s item base, s.depth = d → s.offset ≤ input.content.length → item.Fresh → s.heap.Holds base item.blocks →
    Runs (parse item) s (ValueRead input s base item)

namespace Elements

theorem dropped (h : Elements input start d base type items s) : Dropped input base items s where
  le := h.le
  holds := h.holds
  nested i hi := (h.wellFormed i hi).nested.mono (Nat.sub_le _ _)

/-- The list with a last item that is not read to its end. -/
theorem dropped_snoc (h : Elements input start d base type items s) (hle : s'.offset ≤ input.content.length)
    (hholds : s'.heap.Holds (base + (blocksAll items : Multiset Nat)) item.blocks) (hchild : item.child = []) :
    Dropped input base (items ++ [item]) s' where
  le := hle
  holds := by
    rw [blocksAll_append, blocksAll_cons, blocksAll_nil, List.append_nil]
    exact Ledger.holds_append.mpr hholds
  nested i hi := by
    rcases List.mem_append.mp hi with hi | hi
    · exact h.dropped.nested i hi
    · rw [List.mem_singleton.mp hi]
      exact Item.nested_of_child_nil hchild

theorem snoc (h : Elements input start d base type items s) (hdepth : s'.depth = d)
    (hge : s.offset + item.size ≤ s'.offset) (hle : s'.offset ≤ input.content.length)
    (hholds : s'.heap.Holds (base + (blocksAll items : Multiset Nat)) item.blocks)
    (hitem : item.WellFormed (nestingLimit - d)) (hnamed : item.string.isSome ↔ type = .object) :
    Elements input start d base type (items ++ [item]) s' where
  depth := hdepth
  ge := by
    have hbefore := h.ge
    rw [sizeAll_append, sizeAll_cons, sizeAll_nil]
    omega
  le := hle
  holds := by
    rw [blocksAll_append, blocksAll_cons, blocksAll_nil, List.append_nil]
    exact Ledger.holds_append.mpr hholds
  wellFormed i hi := by
    rcases List.mem_append.mp hi with hi | hi
    · exact h.wellFormed i hi
    · rw [List.mem_singleton.mp hi]
      exact hitem
  named i hi := by
    rcases List.mem_append.mp hi with hi | hi
    · exact h.named i hi
    · rw [List.mem_singleton.mp hi]
      exact hnamed

theorem later (h : Elements input start d base type items s) {o : Nat} (hge : s.offset ≤ o)
    (hle : o ≤ input.content.length) : Elements input start d base type items { s with offset := o } where
  depth := h.depth
  ge := h.ge.trans hge
  le := hle
  holds := h.holds
  wellFormed := h.wellFormed
  named := h.named

/-- After an item the loop goes on at a comma, and ends otherwise. -/
theorem runs_next {bound : Nat} (h : Elements input start d base type items s)
    (hbound : input.content.length - s.offset < bound) :
    Runs (nextElement input items) s (Round.Holds
      (fun items s => Elements input start d base type items s ∧ s.offset < input.content.length)
      (fun _ s => input.content.length - s.offset) bound (Ended input start d base type)) := by
  have hle : s.offset ≤ afterSpaces input.content s.offset := le_afterSpaces
  have hlater := h.later hle (afterSpaces_le h.le)
  unfold nextElement
  rw [Runs.bind_iff]
  refine runs_skipWhitespace h.le ?_
  rw [Runs.bind_iff, runs_isAt, Runs.ite_iff]
  constructor
  · intro hcomma
    simp only [decide_eq_true_eq] at hcomma
    obtain ⟨hlt, -⟩ := List.getElem?_eq_some_iff.mp hcomma
    rw [Runs.pure_iff]
    exact ⟨⟨hlater, hlt⟩, by simp only; omega⟩
  · intro _
    rw [Runs.pure_iff]
    exact ⟨hlater.dropped, fun _ => hlater⟩

end Elements

theorem zeroed_fresh (b : Nat) : (Item.zeroed b).Fresh := ⟨rfl, rfl⟩

theorem blocks_zeroed (b : Nat) : (Item.zeroed b).blocks = [b] := by
  rw [Item.blocks_eq]
  rfl

/-- A new item owns its block, unless the allocation is refused. -/
theorem runs_newItem {Q : Option Item → ParseBuffer → Prop} {bs : List Nat} (hheap : s.heap.Holds base bs)
    (hnone : ∀ heap : Ledger, heap.Holds base bs → Q none { s with heap })
    (hsome : ∀ (heap : Ledger) b, heap.Holds (base + (bs : Multiset Nat)) (Item.zeroed b).blocks →
      Q (some (Item.zeroed b)) { s with heap }) : Runs (newItem input) s Q := by
  simp only [newItem, bind_pure_comp, Runs.map_iff, runs_allocate]
  cases hok : input.allocates s.heap.count with
  | false => exact hnone _ hheap.refused
  | true =>
      refine hsome _ s.heap.count ?_
      rw [blocks_zeroed]
      refine Ledger.holds_append.mp (hheap.allocate.perm ?_)
      exact (List.perm_append_comm : ([s.heap.count] ++ bs).Perm (bs ++ [s.heap.count]))

/-- A round of the loop of `parse_array`. -/
theorem arrayElement_spec (hparse : ValueSpec input d parse) :
    ElementSpec input start d .array (arrayElement input parse) := by
  intro base items s h hlt
  unfold arrayElement
  rw [Runs.bind_iff]
  refine runs_newItem h.holds (fun heap hheap => ?_) fun heap b hheap => ?_
  · rw [Runs.pure_iff]
    exact ⟨⟨h.le, hheap, h.dropped.nested⟩, fun hfalse => by cases hfalse⟩
  · simp only [Runs.bind_iff, runs_advance]
    refine runs_skipWhitespace hlt ?_
    have hspaces : s.offset + 1 ≤ afterSpaces input.content (s.offset + 1) := le_afterSpaces
    refine Runs.mono (hparse _ _ _ h.depth (afterSpaces_le hlt) (zeroed_fresh b) hheap) fun r s₁ h₁ => ?_
    cases r with
    | none =>
        rw [Runs.pure_iff]
        exact ⟨h.dropped_snoc h₁.le h₁.holds rfl, fun hfalse => by cases hfalse⟩
    | some item =>
        have hsize := h₁.size item rfl
        have hlater := h₁.later item rfl
        have hstring : item.string = none := h₁.string item rfl
        simp only [Item.zeroed, Str.size, Option.map_none, Option.getD_none] at hsize hlater
        refine Elements.runs_next (h.snoc ((h₁.depth item rfl).trans h.depth) (by omega) h₁.le h₁.holds ?_ ?_)
          (by omega)
        · rw [← h.depth]
          exact h₁.wellFormed item rfl
        · simp [hstring]

/-- A round of the loop of `parse_object`. -/
theorem objectMember_spec (hparse : ValueSpec input d parse) :
    ElementSpec input start d .object (objectMember input parse) := by
  intro base items s h hlt
  unfold objectMember
  rw [Runs.bind_iff]
  refine runs_newItem h.holds (fun heap hheap => ?_) fun heap b hheap => ?_
  · rw [Runs.pure_iff]
    exact ⟨⟨h.le, hheap, h.dropped.nested⟩, fun hfalse => by cases hfalse⟩
  simp only
  rw [Runs.bind_iff, runs_canAccess, Runs.ite_iff]
  constructor
  · intro _
    rw [Runs.pure_iff]
    exact ⟨h.dropped_snoc h.le hheap rfl, fun hfalse => by cases hfalse⟩
  intro haccess
  simp only [Bool.not_eq_true', decide_eq_false_iff_not, not_not] at haccess
  simp only [Runs.bind_iff, runs_advance]
  refine runs_skipWhitespace (by exact haccess.le) ?_
  have hspaces : s.offset + 1 ≤ afterSpaces input.content (s.offset + 1) := le_afterSpaces
  refine Runs.mono (runs_parseString (afterSpaces_lt haccess) rfl hheap) fun r s₁ h₁ => ?_
  cases r with
  | none =>
      rw [Runs.pure_iff]
      exact ⟨h.dropped_snoc h₁.le h₁.holds rfl, fun hfalse => by cases hfalse⟩
  | some named =>
      obtain ⟨str, rfl, htwo, hlength⟩ := h₁.read named rfl
      simp only at htwo hlength
      have hholds := h₁.holds
      rw [Option.getD_some] at hholds
      -- the name has moved from one field to another
      have hblocks : ({ Item.zeroed b with type := .string, string := some str } : Item).blocks =
          ({ Item.zeroed b with type := .string, valuestring := some str } : Item).blocks := by
        rw [Item.blocks_eq, Item.blocks_eq]
        rfl
      rw [← hblocks] at hholds
      simp only [Runs.bind_iff]
      refine runs_skipWhitespace h₁.le ?_
      have hspaces' : s₁.offset ≤ afterSpaces input.content s₁.offset := le_afterSpaces
      rw [runs_isAt, Runs.ite_iff]
      constructor
      · intro _
        rw [Runs.pure_iff]
        exact ⟨h.dropped_snoc (afterSpaces_le h₁.le) hholds rfl, fun hfalse => by cases hfalse⟩
      · intro hcolon
        simp only [Bool.not_eq_true', decide_eq_false_iff_not, not_not] at hcolon
        obtain ⟨hcolon, -⟩ := List.getElem?_eq_some_iff.mp hcolon
        simp only [Runs.bind_iff, runs_advance]
        refine runs_skipWhitespace (by exact hcolon) ?_
        have hspaces'' : afterSpaces input.content s₁.offset + 1 ≤
          afterSpaces input.content (afterSpaces input.content s₁.offset + 1) := le_afterSpaces
        have hdepth : s₁.depth = d := h₁.depth.trans h.depth
        refine Runs.mono (hparse _ _ _ hdepth (afterSpaces_le hcolon) ⟨rfl, rfl⟩ hholds) fun r s₂ h₂ => ?_
        cases r with
        | none =>
            rw [Runs.pure_iff]
            exact ⟨h.dropped_snoc h₂.le h₂.holds rfl, fun hfalse => by cases hfalse⟩
        | some item =>
            have hsize := h₂.size item rfl
            have hlater := h₂.later item rfl
            simp only [Str.size, Option.map_some, Option.getD_some] at hsize hlater
            refine Elements.runs_next (h.snoc ((h₂.depth item rfl).trans hdepth) (by omega) h₂.le h₂.holds ?_ ?_)
              (by omega)
            · rw [← hdepth]
              exact h₂.wellFormed item rfl
            · simp [h₂.string item rfl]

/-! ## The brackets -/

theorem runs_dropItems (h : Dropped input base items s) :
    Runs (dropItems items) s (fun r s' => r = none ∧ s'.offset = s.offset ∧ s'.heap.Holds base []) := by
  unfold dropItems
  rw [Runs.bind_iff]
  have hdelete : Runs (ifItems items (cJSONDelete (nestingLimit + 1) items)) s (fun _ => Frees s base []) := by
    unfold ifItems
    cases items with
    | nil => simpa using (⟨rfl, rfl, by simpa using h.holds⟩ : Frees s base [] s)
    | cons item items =>
        refine runs_cJSONDelete h.nested ?_
        rw [List.append_nil]
        exact h.holds
  refine hdelete.mono fun _ s' hs' => ?_
  rw [Runs.pure_iff]
  exact ⟨rfl, hs'.offset, hs'.holds⟩

theorem blocks_withChild (hchild : item.child = []) (type : ItemType) (items : List Item) :
    ({ item with type := type, child := items } : Item).blocks = item.blocks ++ blocksAll items := by
  rw [Item.blocks_eq, Item.blocks_eq, hchild]
  simp

theorem runs_closeItem (hfresh : item.Fresh) (htype : type = .array ∨ type = .object) (hdepth : s.depth < nestingLimit)
    (h : Elements input s.offset (s.depth + 1) (base + (item.blocks : Multiset Nat)) type items s')
    (hlt : s'.offset < input.content.length) :
    Runs (closeItem item type items) s' (ValueRead input s base item) := by
  have hge := h.ge
  simp only [closeItem, Runs.bind_iff, Runs.modify_iff, Runs.pure_iff]
  have hsound : ({ item with type := type, child := items } : Item).Sound := by
    refine ⟨?_, ?_, fun _ => htype, ?_, h.named⟩
    · rcases htype with rfl | rfl <;> simp
    · rcases htype with rfl | rfl <;> simp [hfresh.valuestring]
    · rcases htype with rfl | rfl <;> simp
  refine ⟨hlt, ?_, ?_, ?_, ?_, ?_, ?_⟩
  · rw [Option.getD_some, blocks_withChild hfresh.child]
    exact Ledger.holds_append.mpr h.holds
  · intro _ _
    simp only [h.depth]
    exact Nat.succ_sub_one s.depth
  · intro _ _
    simp only
    omega
  · intro item' hitem'
    cases hitem'
    have hlevel : nestingLimit - s.depth = nestingLimit - (s.depth + 1) + 1 := by omega
    rw [hlevel]
    exact ⟨hsound, h.wellFormed⟩
  · intro item' hitem'
    cases hitem'
    rfl
  · intro item' hitem'
    cases hitem'
    rw [Item.size_eq]
    simp only [hfresh.valuestring, Str.size, Option.map_none, Option.getD_none]
    omega

theorem runs_parseContainer {opens : Parse Bool} {closing : Char}
    (hopens : ∀ s, s.offset < input.content.length → Runs opens s (fun _ s' => s' = s))
    (htype : type = .array ∨ type = .object)
    (helement : s.depth < nestingLimit → ElementSpec input s.offset (s.depth + 1) type element)
    (hlt : s.offset < input.content.length) (hfresh : item.Fresh) (hheap : s.heap.Holds base item.blocks) :
    Runs (parseContainer input opens closing type element item) s (ValueRead input s base item) := by
  have hdrop {items : List Item} {s' : ParseBuffer}
      (h : Dropped input (base + (item.blocks : Multiset Nat)) items s') :
      Runs (dropItems items) s' (ValueRead input s base item) := by
    refine (runs_dropItems h).mono fun r s'' hs'' => ?_
    obtain ⟨rfl, hoffset, hholds⟩ := hs''
    refine .failed (by rw [hoffset]; exact h.le) ?_
    simpa using Ledger.holds_append.mpr hholds
  have hempty {s' : ParseBuffer} (hs' : s'.heap = s.heap) : s'.heap.Holds (base + (item.blocks : Multiset Nat)) [] := by
    rw [hs']
    refine Ledger.holds_append.mp ?_
    rw [List.append_nil]
    exact hheap
  unfold parseContainer
  rw [Runs.bind_iff, Runs.get_iff, Runs.ite_iff]
  constructor
  · intro _
    rw [Runs.pure_iff]
    exact .failed hlt.le hheap
  intro hdepth
  have hdepth' : s.depth < nestingLimit := Nat.lt_of_not_le hdepth
  rw [Runs.bind_iff, Runs.modify_iff, Runs.bind_iff]
  refine Runs.mono (hopens _ hlt) fun opened s₁ h₁ => ?_
  subst h₁
  rw [Runs.ite_iff]
  constructor
  · intro _
    exact hdrop ⟨hlt.le, hempty rfl, by simp⟩
  intro _
  simp only [Runs.bind_iff, runs_advance]
  refine runs_skipWhitespace hlt ?_
  have hspaces : s.offset + 1 ≤ afterSpaces input.content (s.offset + 1) := le_afterSpaces
  have hle : afterSpaces input.content (s.offset + 1) ≤ input.content.length := afterSpaces_le hlt
  rw [runs_isAt, Runs.ite_iff]
  constructor
  · intro hclosing
    simp only [decide_eq_true_eq] at hclosing
    obtain ⟨hlt', -⟩ := List.getElem?_eq_some_iff.mp hclosing
    refine runs_closeItem hfresh htype hdepth' ⟨rfl, ?_, hle, hempty rfl, by simp, by simp⟩ hlt'
    simp only [sizeAll_nil]
    omega
  intro _
  rw [Runs.bind_iff, runs_canAccess, Runs.ite_iff]
  constructor
  · intro _
    rw [Runs.bind_iff]
    refine runs_stepBack (by simp only; omega) ?_
    exact hdrop ⟨by simp only; omega, hempty rfl, by simp⟩
  intro haccess
  simp only [Bool.not_eq_true', decide_eq_false_iff_not, not_not] at haccess
  rw [Runs.bind_iff]
  refine runs_stepBack (by simp only; omega) ?_
  rw [Runs.bind_iff]
  have hstart : Elements input s.offset (s.depth + 1) (base + (item.blocks : Multiset Nat)) type []
      { offset := afterSpaces input.content (s.offset + 1) - 1, depth := s.depth + 1, heap := s.heap } := by
    refine ⟨rfl, ?_, by simp only; omega, hempty rfl, by simp, by simp⟩
    simp only [sizeAll_nil]
    omega
  refine Runs.mono (Runs.loop
    (fun items s' h => helement hdepth' (base + (item.blocks : Multiset Nat)) items s' h.1 h.2)
    ⟨hstart, by simp only; omega⟩ (by simp only; omega)) fun r s' hr => ?_
  obtain ⟨items, ok⟩ := r
  cases ok with
  | false => exact hdrop hr.1
  | true =>
      simp only
      rw [Runs.bind_iff, runs_isAt, Runs.ite_iff]
      constructor
      · intro hclosing
        simp only [decide_eq_true_eq] at hclosing
        obtain ⟨hlt', -⟩ := List.getElem?_eq_some_iff.mp hclosing
        exact runs_closeItem hfresh htype hdepth' (hr.2 rfl) hlt'
      · intro _
        exact hdrop hr.1

/-! ## Values -/

/-- `parse_value` has an outcome on every input, if `level` calls may be nested. -/
theorem runs_parseValue (level : Nat) (hlevel : nestingLimit < s.depth + level) (hdepth : s.depth ≤ nestingLimit)
    (hle : s.offset ≤ input.content.length) (hfresh : item.Fresh) (hheap : s.heap.Holds base item.blocks) :
    Runs (parseValue input level item) s (ValueRead input s base item) := by
  induction level generalizing s item base with
  | zero => omega
  | succ level ih =>
      have hword (word : Text) (item' : Item) (hhas : hasWord input.content word s.offset = true)
          (hword : 1 ≤ word.length) (hblocks : item'.blocks = item.blocks) (hsound : item'.Sound)
          (hitem : item'.child = [] ∧ item'.string = item.string ∧ item'.valuestring = none) :
          Runs (do advance word.length; return some item') s (ValueRead input s base item) := by
        have hroom := hasWord_le hhas
        rw [Runs.bind_iff, runs_advance, Runs.pure_iff]
        refine .leaf hroom (by rw [hblocks]; exact hheap) rfl hsound hitem.1 hitem.2.1 ?_
        rw [hitem.2.2]
        simp only [Str.size, Option.map_none, Option.getD_none]
        omega
      have hleaf (type : ItemType) (htype : type ≠ .invalid ∧ type ≠ .string ∧ type ≠ .number) (valueint : Int) :
          ({ item with type := type, valueint := valueint } : Item).Sound :=
        .of_leaf htype.1 (by simp [hfresh.valuestring, htype.2.1]) hfresh.child fun h => absurd h htype.2.2
      have hblocks (type : ItemType) (valueint : Int) :
          ({ item with type := type, valueint := valueint } : Item).blocks = item.blocks := by
        rw [Item.blocks_eq, Item.blocks_eq]
      have hvalues (hdepth' : s.depth < nestingLimit) : ValueSpec input (s.depth + 1) (parseValue input level) := by
        intro s' item' base' hs' hle' hfresh' hheap'
        exact ih (by omega) (by omega) hle' hfresh' hheap'
      rw [parseValue, Runs.bind_iff, runs_isAtWord, Runs.ite_iff]
      constructor
      · intro h
        exact hword _ _ h (by decide) (hblocks .null item.valueint) (hleaf .null (by decide) item.valueint)
          ⟨hfresh.child, rfl, hfresh.valuestring⟩
      intro _
      rw [Runs.bind_iff, runs_isAtWord, Runs.ite_iff]
      constructor
      · intro h
        exact hword _ _ h (by decide) (hblocks .false item.valueint) (hleaf .false (by decide) item.valueint)
          ⟨hfresh.child, rfl, hfresh.valuestring⟩
      intro _
      rw [Runs.bind_iff, runs_isAtWord, Runs.ite_iff]
      constructor
      · intro h
        exact hword _ _ h (by decide) (hblocks .true 1) (hleaf .true (by decide) 1)
          ⟨hfresh.child, rfl, hfresh.valuestring⟩
      intro _
      rw [Runs.bind_iff, runs_canAccess, Runs.ite_iff]
      constructor
      · intro _
        rw [Runs.pure_iff]
        exact .failed hle hheap
      intro haccess
      simp only [Bool.not_eq_true', decide_eq_false_iff_not, not_not] at haccess
      rw [Runs.bind_iff, runs_byteAt]
      refine ⟨_, List.getElem?_eq_getElem haccess, ?_⟩
      rw [Runs.ite_iff]
      constructor
      · intro _
        refine (runs_parseString haccess hfresh.valuestring hheap).mono fun r s' hr => ?_
        cases r with
        | none => exact .failed hr.le hr.holds
        | some item' =>
            obtain ⟨str, rfl, htwo, hlength⟩ := hr.read item' rfl
            refine .leaf hr.le hr.holds hr.depth (.of_leaf ?_ ?_ hfresh.child ?_) hfresh.child rfl ?_
            · simp
            · simp
            · simp
            · simp only [Str.size, Option.map_some, Option.getD_some]
              omega
      intro _
      rw [Runs.ite_iff]
      constructor
      · intro _
        refine runs_parseNumber hle (fun _ => .failed hle hheap) fun hpos => ?_
        have hread := decimalLength_le (numberText input.content s.offset)
        have hlength := length_numberText input.content s.offset
        have hblocks' : (item.withNumber (numberText input.content s.offset)).blocks = item.blocks := by
          rw [Item.blocks_eq, Item.blocks_eq]
          rfl
        refine .leaf (by simp only; omega) (by rw [hblocks']; exact hheap) rfl
          (.of_leaf (by simp [Item.withNumber]) ?_ hfresh.child fun _ => rfl) hfresh.child rfl ?_
        · simp [Item.withNumber, hfresh.valuestring]
        · simp only [Item.withNumber, hfresh.valuestring, Str.size, Option.map_none, Option.getD_none]
          omega
      intro _
      rw [Runs.ite_iff]
      constructor
      · intro _
        refine runs_parseContainer (fun s' hs' => ?_) (Or.inl rfl) (fun h => arrayElement_spec (hvalues h)) haccess
          hfresh hheap
        simp only [bind_pure_comp, Runs.map_iff, runs_byteAt]
        exact ⟨_, List.getElem?_eq_getElem hs', trivial⟩
      intro _
      rw [Runs.ite_iff]
      constructor
      · intro _
        refine runs_parseContainer (fun s' hs' => ?_) (Or.inr rfl) (fun h => objectMember_spec (hvalues h)) haccess
          hfresh hheap
        rw [runs_isAt]
      · intro _
        rw [Runs.pure_iff]
        exact .failed hle hheap

end Tle.Cjson
