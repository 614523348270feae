import Tle.Lib.Scan

/-!
# Pointers to strings

The string functions of C on pointers that may be null. A function that is given a null pointer reads through it,
and the computation ends there.
-/

namespace Tle.Lib

/-- `char *`: null, or the string that it points to. -/
abbrev Pointer := Option Text

inductive NullRead where
  | nullRead

/-- What a computation comes to unless it reads through a null pointer. -/
abbrev Reads (α : Type) := Except NullRead α

/-! ## String functions -/

namespace Pointer

def text : Pointer → Reads Text
  | none => .error .nullRead
  | some s => .ok s

/-- `strcmp(s, t) == 0` -/
def strcmp (s t : Pointer) : Reads Bool := do
  let s ← s.text
  let t ← t.text
  return s = t

/-- `strcmp` with a constant. -/
def equals (s : Pointer) (constant : String) : Reads Bool := s.strcmp (some constant.toList)

/-- `strncmp(s, t, n) == 0` -/
def strncmp (s t : Pointer) (n : Nat) : Reads Bool := do
  let s ← s.text
  let t ← t.text
  return strncmpEq s t n

def strlen (s : Pointer) : Reads Nat := do
  let s ← s.text
  return s.length

/-- `*s != 0` -/
def nonempty (s : Pointer) : Reads Bool := do
  let s ← s.text
  return s ≠ []

def strstr (s pattern : Pointer) : Reads Pointer := do
  let s ← s.text
  let pattern ← pattern.text
  return Lib.strstr s pattern

/-- `strcspn` with one character. -/
def strcspn (s : Pointer) (c : Char) : Reads Nat := do
  let s ← s.text
  return (s.takeWhile (· ≠ c)).length

def strrchr (s : Pointer) (c : Char) : Reads Pointer := do
  let s ← s.text
  return s.tails.reverse.find? (·.head? = some c)

/-- `s + n` -/
def advance (s : Pointer) (n : Nat) : Pointer := s.map (·.drop n)

variable {s t : Text}

@[simp] theorem text_some (s : Text) : text (some s) = .ok s := rfl

@[simp] theorem strcmp_some (s t : Text) : strcmp (some s) (some t) = .ok (decide (s = t)) := rfl

@[simp] theorem equals_some (s : Text) (constant : String) :
    equals (some s) constant = .ok (decide (s = constant.toList)) := rfl

@[simp] theorem strncmp_some (s t : Text) (n : Nat) : strncmp (some s) (some t) n = .ok (strncmpEq s t n) := rfl

@[simp] theorem strlen_some (s : Text) : strlen (some s) = .ok s.length := rfl

@[simp] theorem nonempty_some (s : Text) : nonempty (some s) = .ok (decide (s ≠ [])) := rfl

@[simp] theorem strstr_some (s pattern : Text) : strstr (some s) (some pattern) = .ok (Lib.strstr s pattern) := rfl

@[simp] theorem strcspn_some (s : Text) (c : Char) :
    strcspn (some s) c = .ok (s.takeWhile (· ≠ c)).length := rfl

@[simp] theorem strrchr_some (s : Text) (c : Char) :
    strrchr (some s) c = .ok (s.tails.reverse.find? (·.head? = some c)) := rfl

@[simp] theorem advance_some (s : Text) (n : Nat) : advance (some s) n = some (s.drop n) := rfl

end Pointer

/-! ## Conditions -/

namespace Reads

/-- `a && b && …`; what stands behind a false condition is not evaluated. -/
def all : List (Reads Bool) → Reads Bool
  | [] => .ok true
  | a :: as => do if ← a then all as else return false

/-- `a || b || …` -/
def any : List (Reads Bool) → Reads Bool
  | [] => .ok false
  | a :: as => do if ← a then return true else any as

@[simp] theorem all_nil : all [] = .ok true := rfl

@[simp] theorem any_nil : any [] = .ok false := rfl

@[simp] theorem all_cons_ok (b : Bool) (as : List (Reads Bool)) :
    all (.ok b :: as) = if b then all as else .ok false := rfl

@[simp] theorem any_cons_ok (b : Bool) (as : List (Reads Bool)) :
    any (.ok b :: as) = if b then .ok true else any as := rfl

@[simp] theorem ok_ite {α : Type} (p : Prop) [Decidable p] (a b : α) :
    (if p then .ok a else .ok b : Reads α) = .ok (if p then a else b) := by
  split <;> rfl

@[simp] theorem pure_eq {α : Type} (a : α) : (pure a : Reads α) = .ok a := rfl

@[simp] theorem ok_bind {α β : Type} (a : α) (f : α → Reads β) : (Except.ok a >>= f) = f a := rfl

@[simp] theorem error_bind {α β : Type} (e : NullRead) (f : α → Reads β) : (Except.error e >>= f) = .error e := rfl

/-- An early return, and what comes after it. -/
theorem ite_eq_ok {α : Type} {p : Prop} [Decidable p] {rest : Reads α} {a b : α} (h : ¬p → rest = .ok b) :
    (if p then .ok a else rest) = .ok (if p then a else b) := by
  split
  · rfl
  · exact h (by assumption)

theorem bind_eq_ok_iff {α β : Type} {x : Reads α} {f : α → Reads β} {b : β} :
    (x >>= f) = .ok b ↔ ∃ a, x = .ok a ∧ f a = .ok b := by
  cases x with
  | error e => simp
  | ok a => simp

end Reads

/-! ## Runs -/

section Runs

variable {σ τ : Type} {step : σ → τ → Reads σ} {Safe : σ → τ → Prop}

/-- A run reads through no null pointer when no step does in the state that it finds. -/
theorem foldlM_ok_iff (hstep : ∀ s x, (∃ s', step s x = .ok s') ↔ Safe s x) (s : σ) (xs : List τ) :
    (∃ s', xs.foldlM step s = .ok s') ↔
      ∀ before x after s', xs = before ++ x :: after → before.foldlM step s = .ok s' → Safe s' x := by
  induction xs generalizing s with
  | nil => exact ⟨fun _ before x after s' hsplit => by simp at hsplit, fun _ => ⟨s, rfl⟩⟩
  | cons x xs ih =>
      constructor
      · rintro ⟨last, hrun⟩ before y after s' hsplit hbefore
        rw [List.foldlM_cons] at hrun
        obtain ⟨s₁, hfirst, hrest⟩ := Reads.bind_eq_ok_iff.mp hrun
        cases before with
        | nil =>
            cases hsplit
            cases hbefore
            exact (hstep s x).mp ⟨s₁, hfirst⟩
        | cons z before =>
            cases hsplit
            rw [List.foldlM_cons, hfirst, Reads.ok_bind] at hbefore
            exact (ih s₁).mp ⟨last, hrest⟩ before y after s' rfl hbefore
      · intro hsafe
        obtain ⟨s₁, hfirst⟩ := (hstep s x).mpr (hsafe [] x xs s rfl rfl)
        have hrest : ∃ last, xs.foldlM step s₁ = .ok last := by
          apply (ih s₁).mpr
          intro before y after s' hsplit hbefore
          apply hsafe (x :: before) y after s' (by rw [hsplit, List.cons_append])
          rw [List.foldlM_cons, hfirst, Reads.ok_bind]
          exact hbefore
        obtain ⟨last, hlast⟩ := hrest
        refine ⟨last, ?_⟩
        rw [List.foldlM_cons, hfirst, Reads.ok_bind]
        exact hlast

end Runs

end Tle.Lib
