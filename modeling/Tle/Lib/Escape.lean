import Mathlib.Data.List.Basic

/-!
# Texts with escapes

Some letters are written as a mark and a tail, the mark among them. No tail begins another one and no tail holds a
letter that is escaped, so a text can be read back and the escaped letters do not occur in it.
-/

namespace Tle.Lib

structure Escape (α : Type*) where
  mark : α
  /-- the letters that are escaped, with their tails -/
  table : List (List α × α)
  mark_escaped : ∃ e ∈ table, e.2 = mark
  tails_free : ∀ e ∈ table, ∀ e' ∈ table, e.1 <+: e'.1 → e = e'
  not_mem_tail : ∀ e ∈ table, ∀ e' ∈ table, e.2 ∉ e'.1

namespace Escape

variable {α : Type*} {code : Escape α} {a b : α} {s t u v : List α} {e : List α × α}

/-- A letter that is not escaped is not the mark. -/
theorem ne_mark (h : ∀ e ∈ code.table, e.2 ≠ a) : a ≠ code.mark := by
  obtain ⟨e, he, hmark⟩ := code.mark_escaped
  intro heq
  exact h e he (hmark.trans heq.symm)

theorem mark_not_mem_tail (he : e ∈ code.table) : code.mark ∉ e.1 := by
  obtain ⟨e', he', hmark⟩ := code.mark_escaped
  exact hmark ▸ code.not_mem_tail e' he' e he

/-- What a list begins with that does not hold an element does not reach to it. -/
theorem append_eq_append_cons (ha : a ∉ s) (h : s ++ t = u ++ a :: v) : ∃ w, t = w ++ a :: v := by
  obtain ⟨w, -, ht⟩ | ⟨w, hs, hv⟩ := List.append_eq_append_iff.mp h
  · exact ⟨w, ht⟩
  · cases w with
    | nil => exact ⟨[], by simpa using hv.symm⟩
    | cons c w =>
        rw [List.cons_append, List.cons.injEq] at hv
        exact absurd (by simp [hs, hv.1]) ha

variable [DecidableEq α]

def encode (code : Escape α) (a : α) : List α :=
  match code.table.find? fun e => e.2 = a with
  | some e => code.mark :: e.1
  | none => [a]

/-- An escape is read as its letter and any other letter as itself. -/
def decode (code : Escape α) : List α → List α
  | [] => []
  | a :: s =>
      if a = code.mark then
        match code.table.find? fun e => e.1.isPrefixOf s with
        | some e => e.2 :: decode code (s.drop e.1.length)
        | none => a :: decode code s
      else a :: decode code s
termination_by s => s.length
decreasing_by
  · rw [List.length_drop]
    exact Nat.lt_succ_of_le (Nat.sub_le _ _)
  · exact Nat.lt_succ_self _
  · exact Nat.lt_succ_self _

theorem encode_cases (code : Escape α) (a : α) :
    (∃ e ∈ code.table, e.2 = a ∧ code.encode a = code.mark :: e.1) ∨
      (∀ e ∈ code.table, e.2 ≠ a) ∧ code.encode a = [a] := by
  cases hfind : code.table.find? fun e => e.2 = a with
  | none =>
      right
      rw [List.find?_eq_none] at hfind
      refine ⟨fun e he => by simpa using hfind e he, ?_⟩
      rw [encode, List.find?_eq_none.mpr hfind]
  | some e =>
      left
      refine ⟨e, List.mem_of_find?_eq_some hfind, by simpa using List.find?_some hfind, ?_⟩
      rw [encode, hfind]

theorem decode_other (h : a ≠ code.mark) (s : List α) : code.decode (a :: s) = a :: code.decode s := by
  rw [decode, if_neg h]

theorem decode_escape (he : e ∈ code.table) (s : List α) :
    code.decode (code.mark :: (e.1 ++ s)) = e.2 :: code.decode s := by
  have hfind : code.table.find? (fun e' => e'.1.isPrefixOf (e.1 ++ s)) = some e := by
    cases hfound : code.table.find? fun e' => e'.1.isPrefixOf (e.1 ++ s) with
    | none =>
        rw [List.find?_eq_none] at hfound
        have hself : e.1.isPrefixOf (e.1 ++ s) = true := List.isPrefixOf_iff_prefix.mpr (List.prefix_append _ _)
        exact absurd hself (hfound e he)
    | some e' =>
        have he' := List.mem_of_find?_eq_some hfound
        have hfront := List.find?_some hfound
        have hprefix : e'.1 <+: e.1 ++ s := List.isPrefixOf_iff_prefix.mp hfront
        rcases List.prefix_or_prefix_of_prefix hprefix (List.prefix_append e.1 s) with hle | hle
        · rw [code.tails_free e' he' e he hle]
        · rw [code.tails_free e he e' he' hle]
  rw [decode, if_pos rfl, hfind]
  simp

/-- What has been escaped can be read back. -/
theorem decode_encode (code : Escape α) (s : List α) : code.decode (s.flatMap code.encode) = s := by
  induction s with
  | nil => simp [decode]
  | cons a s ih =>
      rw [List.flatMap_cons]
      obtain ⟨e, he, ha, hencode⟩ | ⟨hnone, hencode⟩ := code.encode_cases a
      · rw [hencode, List.cons_append, decode_escape he, ih, ha]
      · rw [hencode, List.singleton_append, decode_other (ne_mark hnone), ih]

theorem encode_injective (code : Escape α) : Function.Injective (List.flatMap code.encode) :=
  Function.LeftInverse.injective code.decode_encode

/-- Of the escaped letters only the mark occurs. -/
theorem eq_mark_of_mem (hb : b ∈ s.flatMap code.encode) (he : e ∈ code.table) (hletter : e.2 = b) :
    b = code.mark := by
  obtain ⟨a, -, hmem⟩ := List.mem_flatMap.mp hb
  obtain ⟨e', he', -, hencode⟩ | ⟨hnone, hencode⟩ := code.encode_cases a
  · rw [hencode, List.mem_cons] at hmem
    apply hmem.resolve_right
    intro htail
    exact code.not_mem_tail e he e' he' (hletter ▸ htail)
  · rw [hencode, List.mem_singleton] at hmem
    exact absurd (hletter.trans hmem) (hnone e he)

/-- Every mark begins an escape. -/
theorem tail_of_mark (h : s.flatMap code.encode = u ++ code.mark :: v) : ∃ e ∈ code.table, e.1 <+: v := by
  induction s generalizing u with
  | nil => simp at h
  | cons a s ih =>
      rw [List.flatMap_cons] at h
      obtain ⟨e, he, -, hencode⟩ | ⟨hnone, hencode⟩ := code.encode_cases a
      · rw [hencode, List.cons_append] at h
        cases u with
        | nil =>
            rw [List.nil_append, List.cons.injEq] at h
            exact ⟨e, he, h.2 ▸ List.prefix_append _ _⟩
        | cons b u =>
            rw [List.cons_append, List.cons.injEq] at h
            obtain ⟨w, hw⟩ := append_eq_append_cons (mark_not_mem_tail he) h.2
            exact ih hw
      · rw [hencode, List.singleton_append] at h
        cases u with
        | nil =>
            rw [List.nil_append, List.cons.injEq] at h
            exact absurd h.1 (ne_mark hnone)
        | cons b u =>
            rw [List.cons_append, List.cons.injEq] at h
            exact ih h.2

end Escape

end Tle.Lib
