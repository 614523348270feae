import Tle.Lib.Run

/-!
# Cooldowns

A limiter that remembers every key grants a call when the granted calls of the same key lie at least a
gap back. Calls of other keys make no difference to it.
-/

namespace Tle.Lib.Cooldown

variable {κ : Type*} {gap now : Int} {granted : List (κ × Int)} {k : κ}

/-- No call of `k` was granted less than `gap` before `now`. -/
def Rested (gap : Int) (granted : List (κ × Int)) (k : κ) (now : Int) : Prop :=
  ∀ c ∈ granted, c.1 = k → c.2 + gap ≤ now

/-- Granted calls of one key are at least `gap` apart. -/
def Spaced (gap : Int) (granted : List (κ × Int)) : Prop :=
  granted.Pairwise fun c c' => c.1 = c'.1 → c.2 + gap ≤ c'.2

@[simp] theorem rested_nil : Rested gap [] k now := by simp [Rested]

theorem spaced_snoc {c : κ × Int} :
    Spaced gap (granted ++ [c]) ↔ Spaced gap granted ∧ Rested gap granted c.1 c.2 := by
  simp [Spaced, Rested, List.pairwise_append]

section Limiter

variable [DecidableEq κ]

instance : Decidable (Rested gap granted k now) :=
  inferInstanceAs (Decidable (∀ c ∈ granted, c.1 = k → c.2 + gap ≤ now))

theorem rested_filter : Rested gap (granted.filter (·.1 = k)) k now ↔ Rested gap granted k now := by
  simp only [Rested, List.mem_filter, decide_eq_true_eq, and_imp]
  exact forall₂_congr fun c _ => ⟨fun h hk => h hk hk, fun h _ hk => h hk⟩

def grant (gap : Int) (granted : List (κ × Int)) (c : κ × Int) : List (κ × Int) :=
  if Rested gap granted c.1 c.2 then granted ++ [c] else granted

/-- The calls that the limiter grants. -/
def grantedOf (gap : Int) (calls : List (κ × Int)) : List (κ × Int) := run (grant gap) [] calls

theorem grantedOf_snoc (calls : List (κ × Int)) (c : κ × Int) :
    grantedOf gap (calls ++ [c]) = grant gap (grantedOf gap calls) c := run_snoc calls c

/-- What is granted to a key depends on its own calls only. -/
theorem grantedOf_filter (calls : List (κ × Int)) (k : κ) :
    grantedOf gap (calls.filter (·.1 = k)) = (grantedOf gap calls).filter (·.1 = k) := by
  induction calls using List.reverseRecOn with
  | nil => rfl
  | append_singleton calls c ih =>
      rw [grantedOf_snoc, List.filter_append]
      by_cases hk : c.1 = k
      · have hself : [c].filter (·.1 = k) = [c] := by simp [hk]
        rw [hself, grantedOf_snoc, ih, grant, grant]
        subst hk
        by_cases hrested : Rested gap (grantedOf gap calls) c.1 c.2
        · rw [if_pos hrested, if_pos (rested_filter.mpr hrested), List.filter_append, hself]
        · rw [if_neg hrested, if_neg (fun h => hrested (rested_filter.mp h))]
      · have hother : [c].filter (·.1 = k) = [] := by simp [hk]
        rw [hother, List.append_nil, ih, grant]
        split
        · rw [List.filter_append, hother, List.append_nil]
        · rfl

end Limiter

end Tle.Lib.Cooldown
