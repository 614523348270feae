import Tle.Grade.OutcomeTheorems

/-!
# The groups that `grade` scores by

`grade` fetches the groups of the task twice: `has_subtask_groups` looks whether there are any, and the list
that is scored by comes from a call of its own.
-/

namespace Tle.Grade
open Tle.Lib

/-! ## `fetch_subtask_groups` -/

/-- What succeeds in a call. `step_ok i` is the step after `i` rows, `realloc_ok i` the growth of an array
of `i` rows. -/
structure FetchCall where
  prepare_ok : Bool := true
  calloc_ok : Bool := true
  step_ok : Nat → Bool := fun _ => true
  realloc_ok : Nat → Bool := fun _ => true

/-- A row stored through the null pointer of a failed `calloc` ends the process. -/
inductive Fetched where
  | groups (groups : List Group)
  | failed
  | crashed
  deriving DecidableEq

/-- The loop over the rows, with `count` of them read. -/
def fetchRows (c : FetchCall) (count capacity : Nat) : List Group → Option (List Group)
  | [] => if c.step_ok count then some [] else none
  | row :: rest =>
      if !c.step_ok count then none
      else if count = capacity then
        if c.realloc_ok count then (fetchRows c (count + 1) (capacity * 2) rest).map (row :: ·) else none
      else (fetchRows c (count + 1) capacity rest).map (row :: ·)

/-- A call for a task with the groups `stored`. -/
def fetchSubtaskGroupsOf (stored : List Group) (c : FetchCall) : Fetched :=
  if !c.prepare_ok then .failed
  else if stored ≠ [] ∧ c.step_ok 0 ∧ !c.calloc_ok then .crashed
  else match fetchRows c 0 8 stored with
    | some groups => .groups groups
    | none => .failed

/-- What a call that returns returns. -/
def Fetched.returned : Fetched → Option (List Group)
  | groups rows => some rows
  | failed => none
  | crashed => none

/-! ## `grade` from its first call on -/

/-- The second call is made when the first one has found groups. -/
def fetchCrashes (first second : Fetched) : Bool :=
  first = .crashed || first.returned.any (· ≠ []) && second = .crashed

def Run.withFetched (r : Run) (first second : Fetched) : Run :=
  { r with firstGroups := first.returned, secondGroups := second.returned }

/-- How the process comes out of `grade`: it returns, -1 or with an outcome, or it is ended. -/
inductive GradeEnding where
  | returned (out : Option Outcome)
  | crashed

def evaluateFetching (task : Task) (r : Run) (first second : Fetched) (compilerOutput : Option Text) : GradeEnding :=
  if fetchCrashes first second then .crashed
  else .returned (evaluate task (r.withFetched first second) compilerOutput)

/-! ## When a call fails -/

variable {task : Task} {r : Run} {stored rest groups : List Group} {c c₁ c₂ : FetchCall} {count capacity : Nat}

theorem fetchRows_some (h : fetchRows c count capacity rest = some groups) : groups = rest := by
  induction rest generalizing count capacity groups with
  | nil =>
      rw [fetchRows] at h
      split at h
      · exact (Option.some.inj h).symm
      · cases h
  | cons row rest ih =>
      rw [fetchRows] at h
      split_ifs at h
      · obtain ⟨tail, htail, rfl⟩ := Option.map_eq_some_iff.mp h
        rw [ih htail]
      · obtain ⟨tail, htail, rfl⟩ := Option.map_eq_some_iff.mp h
        rw [ih htail]

/-- A step fails, or the array does not grow when it is full: at `capacity` rows, and at twice as many each
time after that. -/
def FailsFrom (c : FetchCall) (count capacity total : Nat) : Prop :=
  ∃ i, count ≤ i ∧ i ≤ total ∧
    (c.step_ok i = false ∨ i < total ∧ (∃ j, i = capacity * 2 ^ j) ∧ c.realloc_ok i = false)

theorem failsFrom_room {total : Nat} (hstep : c.step_ok count = true) (hlt : count < capacity) :
    FailsFrom c count capacity total ↔ FailsFrom c (count + 1) capacity total := by
  constructor
  · rintro ⟨i, hi, hle, hfails⟩
    have hne : i ≠ count := by
      rintro rfl
      rcases hfails with hstep' | ⟨-, ⟨j, hj⟩, -⟩
      · rw [hstep] at hstep'
        cases hstep'
      · have hcapacity : capacity * 1 ≤ capacity * 2 ^ j := Nat.mul_le_mul_left capacity Nat.one_le_two_pow
        omega
    exact ⟨i, by omega, hle, hfails⟩
  · rintro ⟨i, hi, hle, hfails⟩
    exact ⟨i, by omega, hle, hfails⟩

theorem failsFrom_full {total : Nat} (hstep : c.step_ok capacity = true) (hlt : capacity < total) :
    FailsFrom c capacity capacity total ↔
      c.realloc_ok capacity = false ∨ FailsFrom c (capacity + 1) (capacity * 2) total := by
  constructor
  · rintro ⟨i, hi, hle, hfails⟩
    rcases Nat.eq_or_lt_of_le hi with rfl | hi
    · rcases hfails with hstep' | ⟨-, -, hrealloc⟩
      · rw [hstep] at hstep'
        cases hstep'
      · exact Or.inl hrealloc
    · refine Or.inr ⟨i, hi, hle, hfails.imp_right ?_⟩
      rintro ⟨hltTotal, ⟨j, rfl⟩, hrealloc⟩
      cases j with
      | zero => omega
      | succ j => exact ⟨hltTotal, ⟨j, by rw [Nat.pow_succ', Nat.mul_assoc]⟩, hrealloc⟩
  · rintro (hrealloc | ⟨i, hi, hle, hfails⟩)
    · exact ⟨capacity, le_refl _, by omega, Or.inr ⟨hlt, ⟨0, by simp⟩, hrealloc⟩⟩
    · refine ⟨i, by omega, hle, hfails.imp_right ?_⟩
      rintro ⟨hltTotal, ⟨j, rfl⟩, hrealloc⟩
      exact ⟨hltTotal, ⟨j + 1, by rw [Nat.pow_succ', Nat.mul_assoc]⟩, hrealloc⟩

theorem fetchRows_eq_none_iff (hle : count ≤ capacity) (hpos : 0 < capacity) :
    fetchRows c count capacity rest = none ↔ FailsFrom c count capacity (count + rest.length) := by
  induction rest generalizing count capacity with
  | nil =>
      rw [fetchRows, List.length_nil, Nat.add_zero]
      cases hstep : c.step_ok count with
      | false => exact iff_of_true rfl ⟨count, le_refl _, le_refl _, Or.inl hstep⟩
      | true =>
          refine iff_of_false (by simp) ?_
          rintro ⟨i, hi, hi', hfails | ⟨hlt, -⟩⟩
          · rw [Nat.le_antisymm hi' hi, hstep] at hfails
            cases hfails
          · omega
  | cons row rest ih =>
      have htotal : count + (row :: rest).length = count + 1 + rest.length := by
        rw [List.length_cons]
        omega
      rw [fetchRows, htotal]
      cases hstep : c.step_ok count with
      | false => exact iff_of_true rfl ⟨count, le_refl _, by omega, Or.inl hstep⟩
      | true =>
          rw [if_neg (by simp)]
          by_cases hfull : count = capacity
          · subst hfull
            rw [if_pos rfl, failsFrom_full hstep (by omega)]
            cases hrealloc : c.realloc_ok count with
            | false => simp
            | true => simpa using @ih (count + 1) (count * 2) (by omega) (by omega)
          · rw [if_neg hfull, failsFrom_room hstep (by omega), Option.map_eq_none_iff]
            exact ih (by omega) hpos

/-- The statement is prepared, the array allocated, and every step and every growth of the array succeeds. -/
structure FetchCall.Works (c : FetchCall) (stored : List Group) : Prop where
  prepare : c.prepare_ok = true
  calloc : c.calloc_ok = true
  rows : ¬FailsFrom c 0 8 stored.length

theorem fetchSubtaskGroupsOf_groups (h : fetchSubtaskGroupsOf stored c = .groups groups) : groups = stored := by
  unfold fetchSubtaskGroupsOf at h
  split_ifs at h
  split at h
  · rename_i hrows
    cases h
    exact fetchRows_some hrows
  · cases h

theorem fetchSubtaskGroupsOf_groups_iff (hne : stored ≠ []) :
    fetchSubtaskGroupsOf stored c = .groups stored ↔ c.Works stored := by
  have hrows := @fetchRows_eq_none_iff stored c 0 8 (by omega) (by omega)
  rw [Nat.zero_add] at hrows
  constructor
  · intro h
    unfold fetchSubtaskGroupsOf at h
    split_ifs at h with hprepare hcrash
    have hread : fetchRows c 0 8 stored ≠ none := by
      intro hnone
      rw [hnone] at h
      cases h
    have hworks := mt hrows.mpr hread
    have hstep : c.step_ok 0 = true := by
      by_contra hstep
      exact hworks ⟨0, le_refl 0, Nat.zero_le _, Or.inl (by simpa using hstep)⟩
    exact ⟨by simpa using hprepare, by simpa [hne, hstep] using hcrash, hworks⟩
  · rintro ⟨hprepare, hcalloc, hworks⟩
    have hread : fetchRows c 0 8 stored ≠ none := mt hrows.mp hworks
    obtain ⟨groups, hgroups⟩ := Option.ne_none_iff_exists'.mp hread
    simp [fetchSubtaskGroupsOf, hprepare, hcalloc, hgroups, fetchRows_some hgroups]

/-! ## The way of scoring -/

/-- From its first call on `grade` returns an error, or returns what it scores by the groups of the task. -/
def KeepsGroups (task : Task) (r : Run) (stored : List Group) (first second : Fetched) : Prop :=
  ∀ compilerOutput, ∃ out, evaluateFetching task r first second compilerOutput = .returned out ∧
    (out = none ∨ (r.withFetched first second).groups = stored)

/-- In a run that reaches the calls, this is what `grade` ends with. -/
theorem grade_withFetched {first second : Fetched} (hcases : r.ReachesCases task)
    (hcrash : fetchCrashes first second = false) : ∃ compilerOutput,
      evaluateFetching task r first second compilerOutput = .returned (grade task (r.withFetched first second)) := by
  obtain ⟨compilerOutput, hcompiled⟩ := hcases.compiled
  refine ⟨compilerOutput, ?_⟩
  have hgrade := @grade_evaluated task (r.withFetched first second) compilerOutput hcases.prepared
    hcases.builtin hcases.judge hcompiled
  rw [evaluateFetching, hcrash, if_neg Bool.false_ne_true, hgrade]

theorem not_keepsGroups_crashed {first second : Fetched} (hcrash : fetchCrashes first second = true) :
    ¬KeepsGroups task r stored first second := by
  intro h
  obtain ⟨out, hout, -⟩ := h none
  rw [evaluateFetching, if_pos hcrash] at hout
  cases hout

/-- Without groups the run goes on, and its cases are scored one by one. -/
theorem not_keepsGroups_uniform {first second : Fetched} (hcrash : fetchCrashes first second = false)
    (hgroups : (r.withFetched first second).groups = []) (hne : stored ≠ []) :
    ¬KeepsGroups task r stored first second := by
  intro h
  obtain ⟨out, hout, hnone | hstored⟩ := h none
  · rw [evaluateFetching, hcrash, if_neg Bool.false_ne_true, evaluate_eq,
      if_neg (fun h => h.1 hgroups), hnone] at hout
    cases hout
  · exact hne (hstored.symm.trans hgroups)

/-- The groups of the task are kept exactly if nothing fails in either call. -/
theorem keepsGroups_iff (task : Task) (r : Run) (stored : List Group) (hne : stored ≠ []) (c₁ c₂ : FetchCall) :
    KeepsGroups task r stored (fetchSubtaskGroupsOf stored c₁) (fetchSubtaskGroupsOf stored c₂) ↔
      c₁.Works stored ∧ c₂.Works stored := by
  rw [← fetchSubtaskGroupsOf_groups_iff hne, ← fetchSubtaskGroupsOf_groups_iff hne]
  cases h₁ : fetchSubtaskGroupsOf stored c₁ with
  | failed => exact iff_of_false (not_keepsGroups_uniform rfl rfl hne) (by simp)
  | crashed => exact iff_of_false (not_keepsGroups_crashed rfl) (by simp)
  | groups rows =>
      obtain rfl := fetchSubtaskGroupsOf_groups h₁
      obtain ⟨row, rest, rfl⟩ := List.exists_cons_of_ne_nil hne
      cases h₂ : fetchSubtaskGroupsOf (row :: rest) c₂ with
      | failed => exact iff_of_false (not_keepsGroups_uniform rfl rfl hne) (by simp)
      | crashed =>
          refine iff_of_false (not_keepsGroups_crashed ?_) (by simp)
          simp [fetchCrashes, Fetched.returned]
      | groups rows =>
          obtain rfl := fetchSubtaskGroupsOf_groups h₂
          refine iff_of_true (fun compilerOutput => ⟨_, if_neg ?_, Or.inr rfl⟩) ⟨rfl, rfl⟩
          simp [fetchCrashes]

theorem keepsGroups_healthy : KeepsGroups aTask (builtinRun none none .absent fun _ => none) twoGroups
    (fetchSubtaskGroupsOf twoGroups {}) (fetchSubtaskGroupsOf twoGroups {}) := by
  have hworks : FetchCall.Works {} twoGroups := by
    refine ⟨rfl, rfl, ?_⟩
    rintro ⟨i, -, -, hstep | ⟨-, -, hrealloc⟩⟩
    · cases hstep
    · cases hrealloc
  exact (keepsGroups_iff aTask _ twoGroups (by decide) {} {}).mpr ⟨hworks, hworks⟩

/-- The second call fails, and the cases are scored without the groups. -/
theorem not_keepsGroups : ¬∀ (task : Task) (r : Run) (stored : List Group), stored ≠ [] → ∀ c₁ c₂ : FetchCall,
    KeepsGroups task r stored (fetchSubtaskGroupsOf stored c₁) (fetchSubtaskGroupsOf stored c₂) := by
  intro h
  have hkeeps := h aTask (builtinRun none none .absent fun _ => none) twoGroups (by decide) {} { prepare_ok := false }
  exact not_keepsGroups_uniform (by decide) rfl (by decide) hkeeps

end Tle.Grade
