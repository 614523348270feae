import Mathlib.Data.List.Basic

/-!
# Well nested marks

A mark opens or closes an element. The elements that are open form a stack, innermost first; a mark that
closes has to name the top of it.
-/

namespace Tle.Lib

variable {α : Type*} [DecidableEq α]

inductive Mark (α : Type*) where
  | opens (a : α)
  | closes (a : α)
  deriving DecidableEq

/-- The stack after one mark. -/
def Mark.on : Mark α → List α → Option (List α)
  | opens a, stack => some (a :: stack)
  | closes a, b :: stack => if a = b then some stack else none
  | closes _, [] => none

/-- The stack after some marks. -/
def nest (stack : List α) : List (Mark α) → Option (List α)
  | [] => some stack
  | m :: marks => (m.on stack).bind (nest · marks)

/-- Every element is closed once, the last one opened first. -/
def WellNested (marks : List (Mark α)) : Prop := nest [] marks = some []

instance (marks : List (Mark α)) : Decidable (WellNested marks) := inferInstanceAs (Decidable (_ = _))

variable {stack stack' stack'' : List α} {marks marks' : List (Mark α)} {a : α}

@[simp] theorem nest_nil : nest stack [] = some stack := rfl

@[simp] theorem nest_closes_cons : nest (a :: stack) (.closes a :: marks) = nest stack marks := by
  simp [nest, Mark.on]

theorem nest_append : nest stack (marks ++ marks') = (nest stack marks).bind (nest · marks') := by
  induction marks generalizing stack with
  | nil => rfl
  | cons m marks ih =>
      simp only [List.cons_append, nest]
      cases m.on stack with
      | none => rfl
      | some stack => exact ih

/-- Marks that go on from where others have stopped. -/
theorem nest_trans (h : nest stack marks = some stack') (h' : nest stack' marks' = some stack'') :
    nest stack (marks ++ marks') = some stack'' := by
  rw [nest_append, h]
  exact h'

end Tle.Lib
