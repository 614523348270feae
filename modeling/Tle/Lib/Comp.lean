import Mathlib.Logic.Basic

/-!
# Computations on a state, and total correctness

A computation has no outcome where the program has no defined behaviour, or where one of its loops does not end
within the rounds it is given.
-/

namespace Tle.Lib

abbrev Comp (σ α : Type) := StateT σ Option α

namespace Comp

variable {σ α β γ : Type}

/-- No defined behaviour. -/
def undefined : Comp σ α := fun _ => none

/-- A value that there may not be. -/
def ofOption : Option α → Comp σ α
  | some a => pure a
  | none => undefined

/-- What a round of a loop comes to. -/
inductive Round (β γ : Type) where
  | next (b : β)
  | done (c : γ)

/-- A loop of at most `n` rounds. -/
def loop : Nat → (β → Comp σ (Round β γ)) → β → Comp σ γ
  | 0, _, _ => undefined
  | n + 1, body, b => do
      match ← body b with
      | .next b => loop n body b
      | .done c => pure c

/-! ## Total correctness -/

/-- From `s` the computation has an outcome, which is as `Q` says. -/
def Runs (p : Comp σ α) (s : σ) (Q : α → σ → Prop) : Prop := ∃ a s', p s = some (a, s') ∧ Q a s'

/-- A round goes on with the invariant and less of the measure, or it ends with `Q`. -/
def Round.Holds (I : β → σ → Prop) (m : β → σ → Nat) (bound : Nat) (Q : γ → σ → Prop) : Round β γ → σ → Prop
  | .next b, s => I b s ∧ m b s < bound
  | .done c, s => Q c s

namespace Runs

variable {p : Comp σ α} {f : α → Comp σ β} {s s' : σ} {a : α} {Q Q' : α → σ → Prop} {R : β → σ → Prop}
  {c : Prop} [Decidable c] {n : Nat}

theorem of_eq (h : p s = some (a, s')) (hQ : Q a s') : Runs p s Q := ⟨a, s', h, hQ⟩

theorem mono (h : Runs p s Q) (hQ : ∀ a s', Q a s' → Q' a s') : Runs p s Q' := by
  obtain ⟨a, s', heq, ha⟩ := h
  exact ⟨a, s', heq, hQ a s' ha⟩

theorem and (h : Runs p s Q) (h' : Runs p s Q') : Runs p s (fun a s' => Q a s' ∧ Q' a s') := by
  obtain ⟨a, s', heq, ha⟩ := h
  obtain ⟨a', s'', heq', ha'⟩ := h'
  rw [heq, Option.some.injEq, Prod.mk.injEq] at heq'
  obtain ⟨rfl, rfl⟩ := heq'
  exact ⟨a, s', heq, ha, ha'⟩

@[simp] theorem pure_iff : Runs (pure a : Comp σ α) s Q ↔ Q a s := by
  constructor
  · intro h
    obtain ⟨a', s', heq, hQ⟩ := h
    cases heq
    exact hQ
  · exact fun h => ⟨a, s, rfl, h⟩

@[simp] theorem bind_iff : Runs (p >>= f) s R ↔ Runs p s (fun a s' => Runs (f a) s' R) := by
  have hbind : (p >>= f) s = (p s).bind fun r => f r.1 r.2 := rfl
  constructor
  · intro h
    obtain ⟨b, s'', heq, hR⟩ := h
    rw [hbind] at heq
    obtain ⟨⟨a, s'⟩, hp, hf⟩ := Option.bind_eq_some_iff.mp heq
    exact ⟨a, s', hp, b, s'', hf, hR⟩
  · intro h
    obtain ⟨a, s', hp, b, s'', hf, hR⟩ := h
    exact ⟨b, s'', by rw [hbind, hp]; exact hf, hR⟩

@[simp] theorem get_iff {Q : σ → σ → Prop} : Runs (get : Comp σ σ) s Q ↔ Q s s := by
  constructor
  · intro h
    obtain ⟨a, s', heq, hQ⟩ := h
    cases heq
    exact hQ
  · exact fun h => ⟨s, s, rfl, h⟩

@[simp] theorem modify_iff {g : σ → σ} {Q : PUnit → σ → Prop} :
    Runs (modify g : Comp σ PUnit) s Q ↔ Q ⟨⟩ (g s) := by
  constructor
  · intro h
    obtain ⟨a, s', heq, hQ⟩ := h
    cases heq
    exact hQ
  · exact fun h => ⟨⟨⟩, g s, rfl, h⟩

theorem ite_iff {q : Comp σ α} : Runs (if c then p else q) s Q ↔ (c → Runs p s Q) ∧ (¬c → Runs q s Q) := by
  split <;> simp [*]

@[simp] theorem map_iff {g : α → β} : Runs (g <$> p) s R ↔ Runs p s (fun a s' => R (g a) s') := by
  rw [map_eq_pure_bind, bind_iff]
  simp only [pure_iff]

@[simp] theorem undefined_iff : Runs (undefined : Comp σ α) s Q ↔ False := by
  constructor
  · intro h
    obtain ⟨_, _, heq, _⟩ := h
    cases heq
  · exact False.elim

@[simp] theorem ofOption_iff {o : Option α} : Runs (ofOption o) s Q ↔ ∃ a, o = some a ∧ Q a s := by
  cases o with
  | none => simp [ofOption]
  | some a => simp [ofOption]

/-- A loop over a list, with an invariant of what is left of it. -/
theorem forM {g : β → Comp σ PUnit} {I : List β → σ → Prop} {xs : List β}
    (hg : ∀ x xs s, I (x :: xs) s → Runs (g x) s (fun _ => I xs)) (hI : I xs s) :
    Runs (xs.forM g) s (fun _ => I []) := by
  induction xs generalizing s with
  | nil => exact pure_iff.mpr hI
  | cons x xs ih =>
      rw [List.forM, bind_iff]
      exact (hg x xs s hI).mono fun _ s' hs' => ih hs'

/-- Total correctness of a loop: each round keeps the invariant and lowers the measure, or ends as it should. -/
theorem loop {body : β → Comp σ (Round β γ)} {I : β → σ → Prop} {m : β → σ → Nat} {Q : γ → σ → Prop} {b : β}
    (hbody : ∀ b s, I b s → Runs (body b) s (Round.Holds I m (m b s) Q)) (hI : I b s) (hn : m b s < n) :
    Runs (loop n body b) s Q := by
  induction n generalizing b s with
  | zero => exact absurd hn (Nat.not_lt_zero _)
  | succ n ih =>
      rw [Comp.loop, bind_iff]
      refine (hbody b s hI).mono fun r s' hr => ?_
      cases r with
      | next b' =>
          obtain ⟨hI', hm⟩ := hr
          exact ih hI' (by omega)
      | done c => exact pure_iff.mpr hr

end Runs

/-! ## Partial correctness -/

/-- Where the computation has an outcome from `s`, it is as `Q` says. -/
def Ends (p : Comp σ α) (s : σ) (Q : α → σ → Prop) : Prop := ∀ a s', p s = some (a, s') → Q a s'

theorem Runs.ends {p : Comp σ α} {s : σ} {Q Q' : α → σ → Prop} (h : Runs p s Q) (h' : Ends p s Q') :
    Runs p s (fun a s' => Q a s' ∧ Q' a s') := by
  obtain ⟨a, s', heq, ha⟩ := h
  exact ⟨a, s', heq, ha, h' a s' heq⟩

namespace Ends

variable {p : Comp σ α} {f : α → Comp σ β} {s : σ} {a : α} {Q Q' : α → σ → Prop} {R : β → σ → Prop}
  {c : Prop} [Decidable c] {n : Nat}

theorem of_runs (h : Runs p s Q) : Ends p s Q := by
  intro a s' heq
  obtain ⟨a', s'', heq', hQ⟩ := h
  rw [heq', Option.some.injEq, Prod.mk.injEq] at heq
  obtain ⟨rfl, rfl⟩ := heq
  exact hQ

theorem mono (h : Ends p s Q) (hQ : ∀ a s', Q a s' → Q' a s') : Ends p s Q' :=
  fun a s' heq => hQ a s' (h a s' heq)

@[simp] theorem pure_iff : Ends (pure a : Comp σ α) s Q ↔ Q a s := by
  constructor
  · exact fun h => h a s rfl
  · intro h a' s' heq
    cases heq
    exact h

@[simp] theorem bind_iff : Ends (p >>= f) s R ↔ Ends p s (fun a s' => Ends (f a) s' R) := by
  have hbind : (p >>= f) s = (p s).bind fun r => f r.1 r.2 := rfl
  constructor
  · intro h a s' hp b s'' hf
    exact h b s'' (by rw [hbind, hp]; exact hf)
  · intro h b s'' heq
    rw [hbind] at heq
    obtain ⟨⟨a, s'⟩, hp, hf⟩ := Option.bind_eq_some_iff.mp heq
    exact h a s' hp b s'' hf

@[simp] theorem map_iff {g : α → β} : Ends (g <$> p) s R ↔ Ends p s (fun a s' => R (g a) s') := by
  rw [map_eq_pure_bind, bind_iff]
  simp only [pure_iff]

@[simp] theorem get_iff {Q : σ → σ → Prop} : Ends (get : Comp σ σ) s Q ↔ Q s s := by
  constructor
  · exact fun h => h s s rfl
  · intro h a s' heq
    cases heq
    exact h

@[simp] theorem modify_iff {g : σ → σ} {Q : PUnit → σ → Prop} :
    Ends (modify g : Comp σ PUnit) s Q ↔ Q ⟨⟩ (g s) := by
  constructor
  · exact fun h => h ⟨⟩ (g s) rfl
  · intro h a s' heq
    cases heq
    exact h

@[simp] theorem undefined : Ends (Comp.undefined : Comp σ α) s Q := by
  intro a s' heq
  cases heq

@[simp] theorem ofOption_iff {o : Option α} : Ends (ofOption o) s Q ↔ ∀ a, o = some a → Q a s := by
  cases o with
  | none => simp [ofOption]
  | some a => simp [ofOption]

theorem ite_iff {q : Comp σ α} : Ends (if c then p else q) s Q ↔ (c → Ends p s Q) ∧ (¬c → Ends q s Q) := by
  split <;> simp [*]

/-- One round of a loop. -/
theorem loop {body : β → Comp σ (Round β γ)} {b : β} {Q : γ → σ → Prop}
    (h : ∀ n, Ends (body b) s fun r s' => (∀ b', r = .next b' → Ends (Comp.loop n body b') s' Q) ∧
      ∀ c, r = .done c → Q c s') : Ends (Comp.loop n body b) s Q := by
  cases n with
  | zero => exact undefined
  | succ n =>
      rw [Comp.loop, bind_iff]
      refine (h n).mono fun r s' hr => ?_
      cases r with
      | next b' => exact hr.1 b' rfl
      | done c => exact pure_iff.mpr (hr.2 c rfl)

end Ends

end Comp

end Tle.Lib
