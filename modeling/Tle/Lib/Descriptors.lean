import Mathlib.Data.Finset.Card
import Tle.Lib.Prog

/-!
# Programs that open and close descriptors

A process has a set of open descriptors. A new one is the lowest that is not in use. A call of foreign code may
change the set as well.
-/

namespace Tle.Lib

inductive FdCall where
  | open
  | close (fd : Nat)
  | foreign

/-- A program that dies ends its process. -/
abbrev Opens (α : Type) := Prog FdCall Nat α

/-- The lowest descriptor that is not in use. -/
def lowest (s : Finset Nat) : Nat := ((List.range (s.card + 1)).find? (· ∉ s)).getD 0

def fdSem (foreign : Finset Nat → Finset Nat) : FdCall → Finset Nat → Finset Nat × Nat
  | .open, s => (insert (lowest s) s, lowest s)
  | .close fd, s => (s.erase fd, 0)
  | .foreign, s => (foreign s, 0)

/-! ## The calls -/

/-- A call that fails opens nothing. -/
def fopen (ok : Bool) : Opens (Option Nat) :=
  if ok then .op .open fun fd => .ret (some fd) else .ret none

/-- Nothing is closed under a null pointer. -/
def fclose : Option Nat → Opens Unit
  | some fd => .op (.close fd) fun _ => .ret ()
  | none => .ret ()

def pipe : Opens (Nat × Nat) := .op .open fun r => .op .open fun w => .ret (r, w)

def close (fd : Nat) : Opens Unit := fclose (some fd)

def callForeign : Opens Unit := .op .foreign fun _ => .ret ()

/-- The process exits where the condition does not hold. -/
def expect (ok : Bool) : Opens Unit := if ok then .ret () else .died

variable {α β : Type} {foreign : Finset Nat → Finset Nat} {s : Finset Nat} {fd : Nat}

theorem lowest_notMem (s : Finset Nat) : lowest s ∉ s := by
  unfold lowest
  cases hfind : (List.range (s.card + 1)).find? (· ∉ s) with
  | some fd =>
      have hfd := List.find?_some hfind
      simpa using hfd
  | none =>
      -- more numbers than the set has elements cannot all be in it
      have hsub : Finset.range (s.card + 1) ⊆ s := by
        intro fd hfd
        rw [List.find?_eq_none] at hfind
        simpa using hfind fd (by simpa using hfd)
      have hcard := Finset.card_le_card hsub
      rw [Finset.card_range] at hcard
      omega

@[simp] theorem eval_fopen_true : (fopen true).eval (fdSem foreign) s =
    some (some (lowest s), insert (lowest s) s) := rfl

@[simp] theorem eval_fopen_false : (fopen false).eval (fdSem foreign) s = some (none, s) := rfl

@[simp] theorem eval_fclose_some : (fclose (some fd)).eval (fdSem foreign) s = some ((), s.erase fd) := rfl

@[simp] theorem eval_fclose_none : (fclose none).eval (fdSem foreign) s = some ((), s) := rfl

@[simp] theorem eval_close : (close fd).eval (fdSem foreign) s = some ((), s.erase fd) := rfl

@[simp] theorem eval_pipe : pipe.eval (fdSem foreign) s =
    some ((lowest s, lowest (insert (lowest s) s)), insert (lowest (insert (lowest s) s)) (insert (lowest s) s)) :=
  rfl

@[simp] theorem eval_callForeign : callForeign.eval (fdSem foreign) s = some ((), foreign s) := rfl

@[simp] theorem eval_expect_true : (expect true).eval (fdSem foreign) s = some ((), s) := rfl

@[simp] theorem eval_expect_false : (expect false).eval (fdSem foreign) s = none := rfl

@[simp] theorem erase_lowest : s.erase (lowest s) = s := Finset.erase_eq_of_notMem (lowest_notMem s)

/-- Two descriptors that are opened one after the other and closed in this order. -/
@[simp] theorem erase_both :
    ((insert (lowest (insert (lowest s) s)) (insert (lowest s) s)).erase (lowest s)).erase
      (lowest (insert (lowest s) s)) = s := by
  rw [Finset.erase_right_comm]
  simp

theorem ssubset_fopen : s ⊂ insert (lowest s) s := Finset.ssubset_insert (lowest_notMem s)

/-! ## What a program leaves open -/

/-- A program that ends does so with `v`, closes nothing it has not opened, and leaves something open exactly if
`leaks`. -/
def Leaves (foreign : Finset Nat → Finset Nat) (p : Opens α) (v : α) (leaks : Prop) : Prop :=
  ∀ s a s', p.eval (fdSem foreign) s = some (a, s') → a = v ∧ s ⊆ s' ∧ (s' = s ↔ ¬leaks)

namespace Leaves

variable {p : Opens α} {f : α → Opens β} {v : α} {w : β} {A B : Prop}

theorem of_eval (h : ∀ s, p.eval (fdSem foreign) s = some (v, s)) : Leaves foreign p v False := by
  intro s a s' hp
  rw [h, Option.some.injEq, Prod.mk.injEq] at hp
  obtain ⟨rfl, rfl⟩ := hp
  exact ⟨rfl, subset_rfl, by simp⟩

theorem of_ssubset (h : ∀ s, p.eval (fdSem foreign) s = none ∨
    ∃ s', p.eval (fdSem foreign) s = some (v, s') ∧ s ⊂ s') : Leaves foreign p v True := by
  intro s a s' hp
  rcases h s with hnone | ⟨s₁, heval, hssubset⟩
  · rw [hnone] at hp
    cases hp
  · rw [heval, Option.some.injEq, Prod.mk.injEq] at hp
    obtain ⟨rfl, rfl⟩ := hp
    exact ⟨rfl, hssubset.subset, by simp [hssubset.ne']⟩

theorem of_dies (h : ∀ s, p.eval (fdSem foreign) s = none) : Leaves foreign p v A := by
  intro s a s' hp
  rw [h] at hp
  cases hp

theorem ret (v : α) : Leaves foreign (Prog.ret v) v False := of_eval fun _ => rfl

theorem died : Leaves foreign Prog.died v A := of_dies fun _ => rfl

theorem congr (h : Leaves foreign p v A) (hiff : A ↔ B) : Leaves foreign p v B := by
  intro s a s' hp
  rw [← hiff]
  exact h s a s' hp

theorem bind (h : Leaves foreign p v A) (hf : Leaves foreign (f v) w B) : Leaves foreign (p >>= f) w (A ∨ B) := by
  intro s b s' hp
  rw [Prog.eval_bind, Option.bind_eq_some_iff] at hp
  obtain ⟨⟨a, s₁⟩, hfirst, hrest⟩ := hp
  obtain ⟨rfl, hsub, hiff⟩ := h s a s₁ hfirst
  obtain ⟨hb, hsub', hiff'⟩ := hf s₁ b s' hrest
  have hboth : s' = s ↔ s₁ = s ∧ s' = s₁ := by
    constructor
    · rintro rfl
      have heq := hsub.antisymm hsub'
      exact ⟨heq.symm, heq⟩
    · rintro ⟨rfl, rfl⟩
      rfl
  exact ⟨hb, hsub.trans hsub', by rw [hboth, hiff, hiff', not_or]⟩

/-- After `pipe`: its two ends are open, and one of them at least stays so. -/
theorem piped {f : Nat × Nat → Opens α} (h : ∀ s r w, r ∉ s → w ∉ insert r s →
    (f (r, w)).eval (fdSem foreign) (insert w (insert r s)) = none ∨
      ∃ s', (f (r, w)).eval (fdSem foreign) (insert w (insert r s)) = some (v, s') ∧ s ⊂ s') :
    Leaves foreign (pipe >>= f) v True := by
  apply of_ssubset
  intro s
  rw [Prog.eval_bind, eval_pipe, Option.bind_some]
  exact h s _ _ (lowest_notMem s) (lowest_notMem _)

/-- What comes after the leak keeps the descriptors. -/
theorem bind_keeps (h : Leaves foreign p v A) (hf : ∀ s, (f v).eval (fdSem foreign) s = some (w, s)) :
    Leaves foreign (p >>= f) w A :=
  (h.bind (of_eval hf)).congr (iff_of_eq (or_false A))

/-- What comes before the leak keeps the descriptors. -/
theorem keeps_bind (h : ∀ s, p.eval (fdSem foreign) s = some (v, s)) (hf : Leaves foreign (f v) w B) :
    Leaves foreign (p >>= f) w B :=
  ((of_eval h).bind hf).congr (iff_of_eq (false_or B))

theorem expecting {ok : Bool} (h : Leaves foreign p v A) : Leaves foreign (expect ok >>= fun _ => p) v A := by
  cases ok with
  | false => exact died
  | true => exact h

end Leaves

/-! ## Programs that do not die -/

def Returns (foreign : Finset Nat → Finset Nat) (p : Opens α) : Prop :=
  ∀ s, ∃ a s', p.eval (fdSem foreign) s = some (a, s')

namespace Returns

variable {p : Opens α} {f : α → Opens β} {v : α}

theorem of_eval (h : ∀ s, p.eval (fdSem foreign) s = some (v, s)) : Returns foreign p := fun s => ⟨v, s, h s⟩

theorem ret (v : α) : Returns foreign (Prog.ret v) := fun s => ⟨v, s, rfl⟩

theorem bind (h : Returns foreign p) (hf : ∀ a, Returns foreign (f a)) : Returns foreign (p >>= f) := by
  intro s
  obtain ⟨a, s₁, hfirst⟩ := h s
  obtain ⟨b, s', hrest⟩ := hf a s₁
  exact ⟨b, s', by simp [hfirst, hrest]⟩

theorem fopen (ok : Bool) : Returns foreign (fopen ok) := by
  intro s
  cases ok with
  | false => exact ⟨none, s, rfl⟩
  | true => exact ⟨_, _, rfl⟩

theorem fclose (fp : Option Nat) : Returns foreign (fclose fp) := by
  intro s
  cases fp with
  | none => exact ⟨(), s, rfl⟩
  | some fd => exact ⟨_, _, rfl⟩

theorem pipe : Returns foreign pipe := fun _ => ⟨_, _, rfl⟩

theorem callForeign : Returns foreign callForeign := fun _ => ⟨_, _, rfl⟩

theorem expecting {ok : Bool} (hok : ok = true) (h : Returns foreign p) :
    Returns foreign (expect ok >>= fun _ => p) := by
  rw [hok]
  exact h

end Returns

end Tle.Lib
