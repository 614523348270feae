import Mathlib.Data.List.Basic
import Mathlib.Data.List.TakeWhile

/-!
# The fields of a list between separators

Leading, trailing and repeated separators delimit no field.
-/

namespace Tle.Lib

variable {α : Type*} {sep : α → Bool}

/-- The maximal runs of elements that are no separators. -/
def fields (sep : α → Bool) (s : List α) : List (List α) :=
  (s.splitOnP sep).filter (!·.isEmpty)

@[simp] theorem fields_nil : fields sep ([] : List α) = [] := rfl

theorem fields_cons_sep {c : α} {s : List α} (hc : sep c = true) :
    fields sep (c :: s) = fields sep s := by
  simp [fields, List.splitOnP_cons_eq_if_modifyHead, hc]

/-- A run of other elements up to a separator or the end is the first field. -/
theorem fields_append {t s : List α} (hne : t ≠ []) (ht : ∀ c ∈ t, sep c = false)
    (hs : ∀ c, s.head? = some c → sep c = true) : fields sep (t ++ s) = t :: fields sep s := by
  cases s with
  | nil =>
      have hsplit : t.splitOnP sep = [t] := List.splitOnP_eq_singleton ht
      simp [fields, hsplit, hne]
  | cons c s =>
      have hc : sep c = true := hs c rfl
      have hsplit : (t ++ c :: s).splitOnP sep = t :: s.splitOnP sep :=
        List.splitOnP_append_cons_of_forall_mem ht c hc s
      rw [fields_cons_sep hc]
      simp [fields, hsplit, hne]

theorem fields_append_cons_sep {c : α} (hc : sep c = true) (s t : List α) :
    fields sep (s ++ c :: t) = fields sep s ++ fields sep t := by
  simp [fields, List.splitOnP_append_cons s t hc]

theorem fields_seps_append {seps : List α} (hseps : ∀ c ∈ seps, sep c = true) (s : List α) :
    fields sep (seps ++ s) = fields sep s := by
  induction seps with
  | nil => rfl
  | cons c seps ih =>
      rw [List.forall_mem_cons] at hseps
      rw [List.cons_append, fields_cons_sep hseps.1]
      exact ih hseps.2

/-- Any separators between two parts separate them. -/
theorem fields_append_seps {seps : List α} (hne : seps ≠ []) (hseps : ∀ c ∈ seps, sep c = true) (s t : List α) :
    fields sep (s ++ (seps ++ t)) = fields sep s ++ fields sep t := by
  cases seps with
  | nil => exact absurd rfl hne
  | cons c seps =>
      rw [List.forall_mem_cons] at hseps
      rw [List.cons_append, fields_append_cons_sep hseps.1, fields_seps_append hseps.2]

/-- A list is separators, its first field and the rest, if it has a field. -/
theorem fields_cases (sep : α → Bool) (s : List α) : ((∀ c ∈ s, sep c = true) ∧ fields sep s = []) ∨
    ∃ seps t rest, s = seps ++ (t ++ rest) ∧ (∀ c ∈ seps, sep c = true) ∧ t ≠ [] ∧ (∀ c ∈ t, sep c = false) ∧
      (∀ c, rest.head? = some c → sep c = true) ∧ fields sep s = t :: fields sep rest := by
  induction s with
  | nil => exact Or.inl ⟨by simp, rfl⟩
  | cons c s ih =>
      cases hc : sep c with
      | true =>
          rw [fields_cons_sep hc]
          obtain ⟨hall, hnil⟩ | ⟨seps, t, rest, hs, hseps, ht⟩ := ih
          · exact Or.inl ⟨List.forall_mem_cons.mpr ⟨hc, hall⟩, hnil⟩
          · exact Or.inr ⟨c :: seps, t, rest, by rw [hs]; rfl, List.forall_mem_cons.mpr ⟨hc, hseps⟩, ht⟩
      | false =>
          have hsplit := List.takeWhile_append_dropWhile (p := fun d => !sep d) (l := s)
          have ht : ∀ d ∈ c :: s.takeWhile (fun d => !sep d), sep d = false := by
            rw [List.forall_mem_cons]
            refine ⟨hc, fun d hd => ?_⟩
            simpa using List.mem_takeWhile_imp hd
          have hrest : ∀ d, (s.dropWhile (fun d => !sep d)).head? = some d → sep d = true := by
            intro d hd
            have hhead := List.head?_dropWhile_not (fun d => !sep d) s
            rw [hd] at hhead
            simpa using hhead
          refine Or.inr ⟨[], c :: s.takeWhile (fun d => !sep d), s.dropWhile (fun d => !sep d), ?_, by simp,
            by simp, ht, hrest, ?_⟩
          · rw [List.nil_append, List.cons_append, hsplit]
          · have happend := fields_append (List.cons_ne_nil _ _) ht hrest
            rwa [List.cons_append, hsplit] at happend

/-- The parts before and behind the first separator are determined. -/
theorem append_cons_inj {a : α} {s s' t t' : List α} (hs : a ∉ s) (hs' : a ∉ s') :
    s ++ a :: t = s' ++ a :: t' ↔ s = s' ∧ t = t' := by
  constructor
  · intro h
    induction s generalizing s' with
    | nil =>
        cases s' with
        | nil => exact ⟨rfl, by simpa using h⟩
        | cons c s' =>
            rw [List.nil_append, List.cons_append, List.cons.injEq] at h
            exact absurd (by simp [h.1]) hs'
    | cons c s ih =>
        cases s' with
        | nil =>
            rw [List.nil_append, List.cons_append, List.cons.injEq] at h
            exact absurd (by simp [h.1]) hs
        | cons c' s' =>
            rw [List.cons_append, List.cons_append, List.cons.injEq] at h
            rw [List.mem_cons, not_or] at hs hs'
            obtain ⟨rfl, rfl⟩ := ih hs.2 hs'.2 h.2
            exact ⟨by rw [h.1], rfl⟩
  · rintro ⟨rfl, rfl⟩
    rfl

/-- Splitting brings in no elements of its own. -/
theorem mem_of_mem_splitOnP {s t : List α} {a : α} (ht : t ∈ s.splitOnP sep) (ha : a ∈ t) : a ∈ s := by
  induction s generalizing t with
  | nil => simp_all [List.splitOnP_nil]
  | cons c s ih =>
      rw [List.splitOnP_cons_eq_if_modifyHead] at ht
      split at ht
      · rcases List.mem_cons.mp ht with rfl | ht
        · cases ha
        · exact List.mem_cons_of_mem c (ih ht ha)
      · cases hsplit : s.splitOnP sep with
        | nil => exact absurd hsplit (List.splitOnP_ne_nil sep s)
        | cons first rest =>
            rw [hsplit, List.modifyHead_cons] at ht
            rcases List.mem_cons.mp ht with rfl | ht
            · rcases List.mem_cons.mp ha with rfl | ha
              · exact List.mem_cons_self
              · exact List.mem_cons_of_mem c (ih (by simp [hsplit]) ha)
            · exact List.mem_cons_of_mem c (ih (by simp [hsplit, ht]) ha)

end Tle.Lib
