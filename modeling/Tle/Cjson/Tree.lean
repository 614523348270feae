import Tle.Cjson.Parse
import Tle.Lib.JsonText

/-!
# The tree of an item

What it owns, how deeply it is nested, how large it is, and when it is well formed.
-/

namespace Tle.Cjson
open Tle.Lib

def Str.blocks (s : Option Str) : List Nat := (s.map Str.block).toList

def Str.size (s : Option Str) : Nat := (s.map fun s => s.bytes.length).getD 0

mutual

/-- The blocks of an item: its strings, itself and its children. -/
def Item.blocks : Item → List Nat
  | ⟨block, _, valuestring, _, _, string, child⟩ =>
      Str.blocks valuestring ++ Str.blocks string ++ block :: blocksAll child

def blocksAll : List Item → List Nat
  | [] => []
  | item :: items => item.blocks ++ blocksAll items

end

mutual

/-- The items of a tree, and the bytes of its strings. -/
def Item.size : Item → Nat
  | ⟨_, _, valuestring, _, _, string, child⟩ => 1 + Str.size valuestring + Str.size string + sizeAll child

def sizeAll : List Item → Nat
  | [] => 0
  | item :: items => item.size + sizeAll items

end

/-- Children are nested at most `n` deep below the item. -/
def Item.Nested : Nat → Item → Prop
  | 0, item => item.child = []
  | n + 1, item => ∀ c ∈ item.child, c.Nested n

/-- The fields of an item agree with its type, and the children of an object, and of nothing else, have names. -/
structure Item.Sound (item : Item) : Prop where
  type : item.type ≠ .invalid
  valuestring : item.valuestring.isSome ↔ item.type = .string
  child : item.child ≠ [] → item.type = .array ∨ item.type = .object
  number : item.type = .number → item.valueint = saturated item.valuedouble
  named : ∀ c ∈ item.child, c.string.isSome ↔ item.type = .object

/-- A sound tree, nested at most `n` deep. -/
def Item.WellFormed : Nat → Item → Prop
  | 0, item => item.Sound ∧ item.child = []
  | n + 1, item => item.Sound ∧ ∀ c ∈ item.child, c.WellFormed n

/-! ## What is read of a tree -/

/-- The C string that a pointer of an item leads to. -/
def Str.text (s : Option Str) : Text := cstr ((s.map Str.bytes).getD [])

def jsonOf (type : ItemType) (valuestring : Option Str) (valuedouble : Double) (members : List (Text × Json)) : Json :=
  match type with
  | .invalid => .null
  | .null => .null
  | .false => .bool false
  | .true => .bool true
  | .number => .number valuedouble.toRat
  | .string => .string (Str.text valuestring)
  | .array => .array (members.map (·.2))
  | .object => .object members

mutual

def Item.json : Item → Json
  | ⟨_, type, valuestring, _, valuedouble, _, child⟩ => jsonOf type valuestring valuedouble (jsonAll child)

/-- The children with their names. -/
def jsonAll : List Item → List (Text × Json)
  | [] => []
  | item :: items => (Str.text item.string, item.json) :: jsonAll items

end

variable {item : Item} {items : List Item} {n m : Nat}

theorem Item.json_eq (item : Item) :
    item.json = jsonOf item.type item.valuestring item.valuedouble (jsonAll item.child) := by
  cases item
  rw [Item.json]

theorem jsonAll_eq (items : List Item) : jsonAll items = items.map fun i => (Str.text i.string, i.json) := by
  induction items with
  | nil => rw [jsonAll, List.map_nil]
  | cons i items ih => rw [jsonAll, List.map_cons, ih]

theorem Item.blocks_eq (item : Item) :
    item.blocks = Str.blocks item.valuestring ++ Str.blocks item.string ++ item.block :: blocksAll item.child := by
  cases item
  rw [Item.blocks]

theorem Item.size_eq (item : Item) :
    item.size = 1 + Str.size item.valuestring + Str.size item.string + sizeAll item.child := by
  cases item
  rw [Item.size]

@[simp] theorem blocksAll_nil : blocksAll [] = [] := by rw [blocksAll]

@[simp] theorem blocksAll_cons : blocksAll (item :: items) = item.blocks ++ blocksAll items := by rw [blocksAll]

@[simp] theorem sizeAll_nil : sizeAll [] = 0 := by rw [sizeAll]

@[simp] theorem sizeAll_cons : sizeAll (item :: items) = item.size + sizeAll items := by rw [sizeAll]

@[simp] theorem blocksAll_append (as bs : List Item) : blocksAll (as ++ bs) = blocksAll as ++ blocksAll bs := by
  induction as with
  | nil => simp
  | cons a as ih => simp [ih]

@[simp] theorem sizeAll_append (as bs : List Item) : sizeAll (as ++ bs) = sizeAll as + sizeAll bs := by
  induction as with
  | nil => simp
  | cons a as ih =>
      simp only [List.cons_append, sizeAll_cons, ih]
      omega

theorem Item.nested_of_child_nil (h : item.child = []) : item.Nested n := by
  cases n with
  | zero => exact h
  | succ n => simp [Item.Nested, h]

theorem Item.Nested.mono (h : item.Nested n) (hle : n ≤ m) : item.Nested m := by
  induction m generalizing n item with
  | zero =>
      obtain rfl := Nat.le_zero.mp hle
      exact h
  | succ m ih =>
      cases n with
      | zero => exact nested_of_child_nil h
      | succ n => exact fun c hc => ih (h c hc) (Nat.le_of_succ_le_succ hle)

theorem Item.WellFormed.sound (h : item.WellFormed n) : item.Sound := by
  cases n with
  | zero => exact h.1
  | succ n => exact h.1

theorem Item.WellFormed.nested (h : item.WellFormed n) : item.Nested n := by
  induction n generalizing item with
  | zero => exact h.2
  | succ n ih => exact fun c hc => ih (h.2 c hc)

theorem Item.wellFormed_of_child_nil (h : item.Sound) (hchild : item.child = []) : item.WellFormed n := by
  cases n with
  | zero => exact ⟨h, hchild⟩
  | succ n => exact ⟨h, by simp [hchild]⟩

end Tle.Cjson
