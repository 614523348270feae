/-!
# Processes that fork

The behaviour of a process, up to how it ends: the processes it forks on the way are behaviours of
their own.
-/

namespace Tle.Lib

inductive Proc (ε : Type) where
  | done (ending : ε)
  | fork (child next : Proc ε)

namespace Proc

variable {ε : Type}

/-- How the process itself ends. -/
def own : Proc ε → ε
  | done ending => ending
  | fork _ next => next.own

/-- How all the processes created on the way end. -/
def spawned : Proc ε → List ε
  | done _ => []
  | fork child next => child.own :: (child.spawned ++ next.spawned)

@[simp] theorem own_done (ending : ε) : (done ending).own = ending := rfl

@[simp] theorem own_fork (child next : Proc ε) : (fork child next).own = next.own := rfl

/-- A child that ends at once, if it is forked at all. -/
def helper (ending : ε) (forked : Bool) (next : Proc ε) : Proc ε :=
  if forked then fork (done ending) next else next

@[simp] theorem own_helper (ending : ε) (forked : Bool) (next : Proc ε) :
    (helper ending forked next).own = next.own := by
  cases forked <;> rfl

/-- All created processes end in a way that satisfies `P`. -/
def AllSpawned (P : ε → Prop) (p : Proc ε) : Prop := ∀ e ∈ p.spawned, P e

variable {P : ε → Prop}

@[simp] theorem allSpawned_done (ending : ε) : AllSpawned P (done ending) := by
  simp [AllSpawned, spawned]

@[simp] theorem allSpawned_fork (child next : Proc ε) : AllSpawned P (fork child next) ↔
    P child.own ∧ AllSpawned P child ∧ AllSpawned P next := by
  simp only [AllSpawned, spawned, List.mem_cons, List.mem_append]
  constructor
  · intro h
    exact ⟨h _ (Or.inl rfl), fun e he => h e (Or.inr (Or.inl he)),
      fun e he => h e (Or.inr (Or.inr he))⟩
  · rintro ⟨hown, hchild, hnext⟩ e (rfl | he | he)
    · exact hown
    · exact hchild e he
    · exact hnext e he

theorem allSpawned_helper {ending : ε} (h : P ending) (forked : Bool) (next : Proc ε) :
    AllSpawned P (helper ending forked next) ↔ AllSpawned P next := by
  cases forked
  · exact Iff.rfl
  · simp [helper, h]

end Proc

end Tle.Lib
