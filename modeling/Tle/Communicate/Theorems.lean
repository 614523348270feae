import Mathlib.Order.MinMax
import Tle.Communicate.Wait

/-!
# The order in which the children finish
-/

namespace Tle.Communicate
open Tle.Lib

variable {timeMs : BitVec 64} {t : Clock} {m c : Child} {fuel i : Nat}

theorem waitpid_running (hreaped : c.reaped = false) (h : i < c.finish) :
    c.waitpid i = (.running, c) := by
  have hle : ¬ c.finish ≤ i := Nat.not_le.mpr h
  simp [Child.waitpid, hreaped, hle]

theorem waitpid_pid (hreaped : c.reaped = false) (h : c.finish ≤ i) :
    c.waitpid i = (.pid, { c with reaped := true, status := c.exitStatus }) := by
  simp [Child.waitpid, hreaped, h]

theorem waitpid_error (hreaped : c.reaped = true) : c.waitpid i = (.error, c) := by
  simp [Child.waitpid, hreaped]

/-! ## One poll -/

theorem waitLoop_running (hm : m.reaped = false) (hc : c.reaped = false) (him : i < m.finish)
    (hic : i < c.finish) : waitLoop timeMs t (fuel + 1) i m c =
      if t.elapsedMs i > limitMs timeMs then some ⟨1, [false, false]⟩
      else waitLoop timeMs t fuel (i + 1) m c := by
  simp [waitLoop, waitpid_running hm him, waitpid_running hc hic, hm, hc]

theorem waitLoop_both (hm : m.reaped = false) (hc : c.reaped = false) (him : m.finish ≤ i)
    (hic : c.finish ≤ i) : waitLoop timeMs t (fuel + 1) i m c =
      some ⟨if exitedZero m.exitStatus && exitedZero c.exitStatus then 0 else 1, []⟩ := by
  simp [waitLoop, waitpid_pid hm him, waitpid_pid hc hic]

/-- A child reaped before makes the poll fail, and is killed. -/
theorem waitLoop_reaped (h : m.reaped = true ∨ c.reaped = true) :
    ∃ kills, true ∈ kills ∧ ∀ fuel, waitLoop timeMs t (fuel + 1) i m c = some ⟨2, kills⟩ := by
  have hkeep : ∀ x : Child, x.reaped = true → (x.waitpid i).2.reaped = true := by
    intro x hx
    rw [waitpid_error hx]
    exact hx
  refine ⟨[(m.waitpid i).2.reaped, (c.waitpid i).2.reaped], ?_, ?_⟩
  · rcases h with h | h
    · simp [hkeep m h]
    · simp [hkeep c h]
  · intro fuel
    rcases h with h | h
    · simp [waitLoop, waitpid_error h]
    · simp [waitLoop, waitpid_error h]

/-- Only one child has finished: this poll or the next one kills it after it has been reaped. -/
theorem waitLoop_one (hm : m.reaped = false) (hc : c.reaped = false)
    (h : m.finish ≤ i ∧ i < c.finish ∨ c.finish ≤ i ∧ i < m.finish) :
    ∃ o, true ∈ o.kills ∧ ∀ fuel, waitLoop timeMs t (fuel + 2) i m c = some o := by
  rcases h with ⟨him, hic⟩ | ⟨hic, him⟩
  · by_cases hlate : t.elapsedMs i > limitMs timeMs
    · refine ⟨⟨1, [true, false]⟩, by simp, fun fuel => ?_⟩
      simp [waitLoop, waitpid_pid hm him, waitpid_running hc hic, hlate, hc]
    · have hreaped : ({ m with reaped := true, status := m.exitStatus } : Child).reaped = true := rfl
      obtain ⟨kills, hkilled, hloop⟩ :=
        @waitLoop_reaped timeMs t _ c (i + 1) (Or.inl hreaped)
      refine ⟨⟨2, kills⟩, hkilled, fun fuel => ?_⟩
      rw [← hloop fuel]
      simp [waitLoop, waitpid_pid hm him, waitpid_running hc hic, hlate]
  · by_cases hlate : t.elapsedMs i > limitMs timeMs
    · refine ⟨⟨1, [false, true]⟩, by simp, fun fuel => ?_⟩
      simp [waitLoop, waitpid_running hm him, waitpid_pid hc hic, hlate, hm]
    · have hreaped : ({ c with reaped := true, status := c.exitStatus } : Child).reaped = true := rfl
      obtain ⟨kills, hkilled, hloop⟩ :=
        @waitLoop_reaped timeMs t m _ (i + 1) (Or.inr hreaped)
      refine ⟨⟨2, kills⟩, hkilled, fun fuel => ?_⟩
      rw [← hloop fuel]
      simp [waitLoop, waitpid_running hm him, waitpid_pid hc hic, hlate]

/-! ## The polls in which both children run -/

theorem waitLoop_advance {n : Nat} (hm : m.reaped = false) (hc : c.reaped = false)
    (hmn : i + n ≤ m.finish) (hcn : i + n ≤ c.finish)
    (hearly : ∀ j, i ≤ j → j < i + n → t.elapsedMs j ≤ limitMs timeMs) :
    waitLoop timeMs t (n + fuel) i m c = waitLoop timeMs t fuel (i + n) m c := by
  induction n generalizing i with
  | zero => rw [Nat.zero_add]; rfl
  | succ n ih =>
      have hnow : ¬ t.elapsedMs i > limitMs timeMs :=
        Int.not_lt.mpr (hearly i (Nat.le_refl i) (by omega))
      rw [Nat.succ_add, waitLoop_running hm hc (by omega) (by omega), if_neg hnow,
        ih (by omega) (by omega) (fun j hle hlt => hearly j (by omega) (by omega)),
        Nat.add_assoc, Nat.add_comm 1 n]

/-- When the time is up in one of the next `n` polls, both running children are killed. -/
theorem waitLoop_late {n : Nat} (hm : m.reaped = false) (hc : c.reaped = false)
    (hmn : i + n ≤ m.finish) (hcn : i + n ≤ c.finish)
    (hlate : ∃ j, i ≤ j ∧ j < i + n ∧ t.elapsedMs j > limitMs timeMs) :
    waitLoop timeMs t (n + fuel) i m c = some ⟨1, [false, false]⟩ := by
  induction n generalizing i with
  | zero => obtain ⟨j, hle, hlt, -⟩ := hlate; omega
  | succ n ih =>
      rw [Nat.succ_add, waitLoop_running hm hc (by omega) (by omega)]
      by_cases hnow : t.elapsedMs i > limitMs timeMs
      · rw [if_pos hnow]
      · rw [if_neg hnow]
        obtain ⟨j, hle, hlt, hj⟩ := hlate
        have hne : i ≠ j := by
          rintro rfl
          exact hnow hj
        exact ih (by omega) (by omega) ⟨j, by omega, by omega, hj⟩

/-! ## The whole helper -/

structure Setup.Succeeds (s : Setup) : Prop where
  argc : s.argc = 5
  time : strtoul s.timeArg ≠ 0
  memory : strtoul s.memoryArg ≠ 0
  workDir : s.workDir.length < 1400
  manager : s.manager.length < 4096
  isolate : s.isolate_ok = true
  pipes : s.pipes_ok = true
  forkManager : s.forkManager_ok = true
  forkContestant : s.forkContestant_ok = true

theorem communicate_succeeds {s : Setup} (hs : s.Succeeds) :
    communicate s t fuel m c = waitLoop s.timeMs t fuel 0 m c := by
  have hbound : ¬ (strtoul s.timeArg = 0 ∨ strtoul s.memoryArg = 0 ∨ s.workDir.length ≥ 1400 ∨
      s.manager.length ≥ 4096) := by
    have := hs.workDir
    have := hs.manager
    rintro (h | h | h | h)
    · exact hs.time h
    · exact hs.memory h
    · omega
    · omega
  unfold communicate
  rw [if_neg (not_not_intro hs.argc), if_neg hbound]
  simp [hs.isolate, hs.pipes, hs.forkManager, hs.forkContestant]

/-- What the helper owes to two children with these finishing polls and statuses, in whichever order
they finish. -/
structure OrderIndependent (timeMs : BitVec 64) (t : Clock) (m c : Child) (o : Outcome) : Prop where
  code : (∀ i, i < max m.finish c.finish → t.elapsedMs i ≤ limitMs timeMs) →
    o.code = if exitedZero m.exitStatus && exitedZero c.exitStatus then 0 else 1
  kills : ∀ reaped ∈ o.kills, reaped = false

/-- `n` and two more polls are enough once a run of `n` polls has led to one that ends within two. -/
theorem enough_polls {n : Nat} {run : Nat → Option Outcome} {o : Outcome}
    (h : ∀ fuel, run (n + (fuel + 2)) = some o) : ∀ fuel, n + 2 ≤ fuel → run fuel = some o := by
  intro fuel hfuel
  obtain ⟨rest, rfl⟩ := Nat.exists_eq_add_of_le hfuel
  rw [Nat.add_assoc, Nat.add_comm 2 rest]
  exact h rest

theorem loop_late {n : Nat} (hm : m.reaped = false) (hc : c.reaped = false) (hmn : n ≤ m.finish)
    (hcn : n ≤ c.finish) (hlate : ∃ i, i < n ∧ t.elapsedMs i > limitMs timeMs) :
    ∀ fuel, waitLoop timeMs t (n + fuel) 0 m c = some ⟨1, [false, false]⟩ := by
  intro fuel
  obtain ⟨i, hlt, hi⟩ := hlate
  exact waitLoop_late hm hc (by omega) (by omega) ⟨i, Nat.zero_le i, by omega, hi⟩

theorem loop_same {n : Nat} (hm : m.reaped = false) (hc : c.reaped = false) (hmn : m.finish = n)
    (hcn : c.finish = n) (hearly : ∀ i, i < n → t.elapsedMs i ≤ limitMs timeMs) :
    ∀ fuel, waitLoop timeMs t (n + (fuel + 2)) 0 m c =
      some ⟨if exitedZero m.exitStatus && exitedZero c.exitStatus then 0 else 1, []⟩ := by
  intro fuel
  rw [waitLoop_advance hm hc (by omega) (by omega) (fun j _ hlt => hearly j (by omega))]
  exact waitLoop_both hm hc (by omega) (by omega)

theorem loop_apart {n : Nat} (hm : m.reaped = false) (hc : c.reaped = false)
    (hn : n = min m.finish c.finish) (hne : m.finish ≠ c.finish)
    (hearly : ∀ i, i < n → t.elapsedMs i ≤ limitMs timeMs) :
    ∃ o, true ∈ o.kills ∧ ∀ fuel, waitLoop timeMs t (n + (fuel + 2)) 0 m c = some o := by
  obtain ⟨o, hkilled, hend⟩ := @waitLoop_one timeMs t m c (0 + n) hm hc (by omega)
  refine ⟨o, hkilled, ?_⟩
  intro fuel
  rw [waitLoop_advance hm hc (by omega) (by omega) (fun j _ hlt => hearly j (by omega))]
  exact hend fuel

/-- The helper ends, and treats its children alike, exactly when one poll reaps both or the time is up
before either has finished. -/
theorem communicate_order_iff (s : Setup) (t : Clock) (m c mStatus cStatus : Nat) (hs : s.Succeeds) :
    ∃ o, (∀ fuel, min m c + 2 ≤ fuel →
        communicate s t fuel (.fresh m mStatus) (.fresh c cStatus) = some o) ∧
      (OrderIndependent s.timeMs t (.fresh m mStatus) (.fresh c cStatus) o ↔
        m = c ∨ ∃ i, i < min m c ∧ t.elapsedMs i > limitMs s.timeMs) := by
  have hm : (Child.fresh m mStatus).reaped = false := rfl
  have hc : (Child.fresh c cStatus).reaped = false := rfl
  simp only [communicate_succeeds hs]
  by_cases hlate : ∃ i, i < min m c ∧ t.elapsedMs i > limitMs s.timeMs
  · have hloop := loop_late hm hc (Nat.min_le_left m c) (Nat.min_le_right m c) hlate
    refine ⟨⟨1, [false, false]⟩, enough_polls (fun fuel => hloop (fuel + 2)), ?_⟩
    refine iff_of_true ⟨?_, by simp⟩ (Or.inr hlate)
    intro hearly
    obtain ⟨i, hlt, hi⟩ := hlate
    exact absurd (hearly i (Nat.lt_of_lt_of_le hlt min_le_max)) (Int.not_le.mpr hi)
  have hearly : ∀ i, i < min m c → t.elapsedMs i ≤ limitMs s.timeMs := by
    intro i hlt
    exact Int.not_lt.mp (fun hi => hlate ⟨i, hlt, hi⟩)
  by_cases heq : m = c
  · subst heq
    have hsame : (Child.fresh m mStatus).finish = min m m := (Nat.min_self m).symm
    have hsame' : (Child.fresh m cStatus).finish = min m m := (Nat.min_self m).symm
    have hloop := loop_same hm hc hsame hsame' hearly
    exact ⟨_, enough_polls hloop, iff_of_true ⟨fun _ => rfl, by simp⟩ (Or.inl rfl)⟩
  · obtain ⟨o, hkilled, hloop⟩ := loop_apart hm hc rfl heq hearly
    refine ⟨o, enough_polls hloop, iff_of_false ?_ ?_⟩
    · rintro ⟨-, hkills⟩
      exact absurd (hkills true hkilled) (by decide)
    · rintro (h | h)
      · exact heq h
      · exact hlate h

def stillClock : Clock := ⟨⟨0, 0⟩, fun _ => ⟨0, 0⟩⟩

/-- The command line that the grader uses, with a limit of one second. -/
def oneSecond : Setup where
  argc := 5
  workDir := "/tmp/tle".toList
  manager := "/srv/tle/tasks/sum/manager".toList
  timeArg := "1000".toList
  memoryArg := "262144".toList
  isolate_ok := true
  pipes_ok := true
  forkManager_ok := true
  forkContestant_ok := true

theorem communicate_order_same_poll :
    oneSecond.Succeeds ∧ ∃ o, communicate oneSecond stillClock 5 (.fresh 3 0) (.fresh 3 0) = some o ∧
      OrderIndependent oneSecond.timeMs stillClock (.fresh 3 0) (.fresh 3 0) o := by
  have hs : oneSecond.Succeeds := by constructor <;> decide
  obtain ⟨o, hend, hiff⟩ := communicate_order_iff oneSecond stillClock 3 3 0 0 hs
  exact ⟨hs, o, hend 5 (by decide), hiff.mpr (Or.inl rfl)⟩

/-- A manager that finishes one poll before the contestant: both exit with 0, and the helper reports an
error and kills the manager it has reaped. -/
theorem manager_first_is_killed :
    oneSecond.Succeeds ∧
      communicate oneSecond stillClock 3 (.fresh 0 0) (.fresh 1 0) = some ⟨2, [true, true]⟩ ∧
      ¬ OrderIndependent oneSecond.timeMs stillClock (.fresh 0 0) (.fresh 1 0) ⟨2, [true, true]⟩ := by
  refine ⟨by constructor <;> decide, by decide, ?_⟩
  rintro ⟨-, hkills⟩
  exact absurd (hkills true (by simp)) (by decide)

end Tle.Communicate
