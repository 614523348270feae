import Mathlib.Data.List.Basic
import Mathlib.Data.List.Infix

/-!
# Runs of a step function

A system is a state and a total step function; a step that is not enabled leaves the state as it is.
A run is the list of its steps, and what the steps emit is its history. An invariant may relate the
state to the history.
-/

namespace Tle.Lib

variable {σ σ' α β τ : Type*}

def run (step : σ → α → σ) (s : σ) (as : List α) : σ := as.foldl step s

def history (step : σ → α → σ) (emit : σ → α → List τ) (s : σ) : List α → List τ
  | [] => []
  | a :: as => emit s a ++ history step emit (step s a) as

variable {step : σ → α → σ} {step' : σ' → β → σ'} {emit : σ → α → List τ} {s : σ} {s' : σ'}

@[simp] theorem run_nil : run step s [] = s := rfl

theorem run_snoc (as : List α) (a : α) : run step s (as ++ [a]) = step (run step s as) a := by
  simp [run]

theorem run_append (as bs : List α) : run step s (as ++ bs) = run step (run step s as) bs := by
  simp [run]

@[simp] theorem history_nil : history step emit s [] = [] := rfl

theorem history_snoc (as : List α) (a : α) :
    history step emit s (as ++ [a]) = history step emit s as ++ emit (run step s as) a := by
  induction as generalizing s with
  | nil => simp [history]
  | cons b as ih => simp [history, ih, run]

/-- A relation between history and state that each step keeps holds after every run. -/
theorem run_invariant {P : List τ → σ → Prop} (init : P [] s)
    (keep : ∀ h t a, P h t → P (h ++ emit t a) (step t a)) (as : List α) :
    P (history step emit s as) (run step s as) := by
  induction as using List.reverseRecOn with
  | nil => exact init
  | append_singleton as a ih => rw [history_snoc, run_snoc]; exact keep _ _ _ ih

theorem run_keeps {P : σ → Prop} (init : P s) (keep : ∀ t a, P t → P (step t a)) (as : List α) :
    P (run step s as) := by
  induction as using List.reverseRecOn with
  | nil => exact init
  | append_singleton as a ih => rw [run_snoc]; exact keep _ _ ih

/-- When each step is matched by steps of another system, so is each run. -/
theorem run_simulated {R : σ → σ' → Prop} (init : R s s')
    (sim : ∀ t t' a, R t t' → ∃ bs, R (step t a) (run step' t' bs)) (as : List α) :
    ∃ bs, R (run step s as) (run step' s' bs) := by
  induction as using List.reverseRecOn with
  | nil => exact ⟨[], init⟩
  | append_singleton as a ih =>
      obtain ⟨bs, hbs⟩ := ih
      obtain ⟨cs, hcs⟩ := sim _ _ a hbs
      exact ⟨bs ++ cs, by rw [run_snoc, run_append]; exact hcs⟩

theorem prefix_snoc_left {pre as : List α} {a : α} (h : pre ++ [a] <+: as) : pre <+: as :=
  (List.prefix_append pre [a]).trans h

/-- When a step keeps `P` exactly if it is `Good`, `P` holds in every state of a run exactly if every
step of the run is good. -/
theorem all_states_iff_all_steps {P : List τ → σ → Prop} {Good : σ → α → Prop} (init : P [] s)
    (exact : ∀ h t a, P h t → (P (h ++ emit t a) (step t a) ↔ Good t a)) (as : List α) :
    (∀ pre, pre <+: as → P (history step emit s pre) (run step s pre)) ↔
      ∀ pre a, pre ++ [a] <+: as → Good (run step s pre) a := by
  constructor
  · intro h pre a hpre
    have hnext := h _ hpre
    rw [history_snoc, run_snoc] at hnext
    exact (exact _ _ _ (h pre (prefix_snoc_left hpre))).mp hnext
  · intro h pre
    induction pre using List.reverseRecOn with
    | nil => intro _; exact init
    | append_singleton pre a ih =>
        intro hpre
        rw [history_snoc, run_snoc]
        exact (exact _ _ _ (ih (prefix_snoc_left hpre))).mpr (h pre a hpre)

end Tle.Lib
