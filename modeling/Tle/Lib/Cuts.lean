import Mathlib.Data.List.Basic

/-!
# A value cut into chunks

The chunks are handed over one by one, each with its offset. Either what two chunks in a row do is done by one
chunk that is both, or a chunk undoes what the one before it has done.
-/

namespace Tle.Lib

variable {α σ β : Type*} {v w c : List α} {chunks chunks' : List (List α)}

/-- The chunks of a value, none of which is empty. An empty value has none. -/
structure Cuts (v : List α) (chunks : List (List α)) : Prop where
  ne_nil : chunks ≠ []
  nonempty : ∀ c ∈ chunks, c ≠ []
  flatten : chunks.flatten = v

namespace Cuts

theorem whole (hv : v ≠ []) : Cuts v [v] where
  ne_nil := List.cons_ne_nil _ _
  nonempty := by simpa using hv
  flatten := List.flatten_singleton

theorem append (h : Cuts v chunks) (h' : Cuts w chunks') : Cuts (v ++ w) (chunks ++ chunks') where
  ne_nil := List.append_ne_nil_of_left_ne_nil h.ne_nil _
  nonempty := by
    intro c hc
    rcases List.mem_append.mp hc with hc | hc
    · exact h.nonempty c hc
    · exact h'.nonempty c hc
  flatten := by rw [List.flatten_append, h.flatten, h'.flatten]

theorem cons (hc : c ≠ []) (h : Cuts v chunks) : Cuts (c ++ v) (c :: chunks) := (whole hc).append h

/-- The first chunk is all there is, or the other chunks are those of what follows it. -/
theorem cases_cons (h : Cuts v (c :: chunks)) :
    c ≠ [] ∧ (chunks = [] ∧ v = c ∨ ∃ w, v = c ++ w ∧ Cuts w chunks) := by
  refine ⟨h.nonempty c List.mem_cons_self, ?_⟩
  have hflatten := h.flatten
  rw [List.flatten_cons] at hflatten
  by_cases hchunks : chunks = []
  · subst hchunks
    exact Or.inl ⟨rfl, by simpa using hflatten.symm⟩
  · exact Or.inr ⟨chunks.flatten, hflatten.symm, hchunks,
      fun d hd => h.nonempty d (List.mem_cons_of_mem c hd), rfl⟩

theorem value_ne_nil (h : Cuts v chunks) : v ≠ [] := by
  cases chunks with
  | nil => exact absurd rfl h.ne_nil
  | cons c chunks =>
      obtain ⟨hc, ⟨-, rfl⟩ | ⟨w, rfl, -⟩⟩ := h.cases_cons
      · exact hc
      · exact List.append_ne_nil_of_left_ne_nil hc w

/-- The last chunk ends the value. -/
theorem last (h : Cuts v chunks) : ∃ init s, chunks = init ++ [s] ∧ s ≠ [] ∧ s <:+ v := by
  obtain ⟨init, s, rfl⟩ := (List.eq_nil_or_concat chunks).resolve_left h.ne_nil
  refine ⟨init, s, List.concat_eq_append, h.nonempty s (by simp), ?_⟩
  rw [← h.flatten, List.concat_eq_append, List.flatten_append, List.flatten_singleton]
  exact List.suffix_append _ _

/-- What ends the value can be its last chunk. -/
theorem exists_of_suffix {s : List α} (hs : s ≠ []) (h : s <:+ v) : ∃ init, Cuts v (init ++ [s]) := by
  obtain ⟨u, rfl⟩ := h
  by_cases hu : u = []
  · subst hu
    exact ⟨[], whole hs⟩
  · exact ⟨[u], (whole hu).append (whole hs)⟩

/-- What begins the value can be its first chunk. -/
theorem exists_of_prefix {q : List α} (hq : q ≠ []) (h : q <+: v) : ∃ chunks, Cuts v (q :: chunks) := by
  obtain ⟨u, rfl⟩ := h
  by_cases hu : u = []
  · subst hu
    rw [List.append_nil]
    exact ⟨[], whole hq⟩
  · exact ⟨[u], cons hq (whole hu)⟩

end Cuts

/-! ## Handing over the chunks -/

/-- The chunks are taken in from an offset on. -/
def deliver (feed : σ → Nat → List α → σ) (s : σ) (off : Nat) : List (List α) → σ
  | [] => s
  | c :: chunks => deliver feed (feed s off c) (off + c.length) chunks

variable {feed : σ → Nat → List α → σ} {obs : σ → β}

/-- If two chunks in a row have the outcome of one then so have all chunks of a value. -/
theorem obs_deliver_of_merge (hmerge : ∀ s off c c', c ≠ [] → c' ≠ [] →
      obs (feed (feed s off c) (off + c.length) c') = obs (feed s off (c ++ c')))
    (h : Cuts v chunks) (s : σ) (off : Nat) : obs (deliver feed s off chunks) = obs (feed s off v) := by
  induction chunks generalizing v s off with
  | nil => exact absurd rfl h.ne_nil
  | cons c chunks ih =>
      obtain ⟨hc, ⟨rfl, rfl⟩ | ⟨w, rfl, hw⟩⟩ := h.cases_cons
      · rfl
      · rw [deliver, ih hw, hmerge s off c w hc hw.value_ne_nil]

/-- If a chunk undoes the one before it, wherever they stand, then only the last one counts. -/
theorem deliver_of_overwrite (hoff : ∀ s off off' c, feed s off c = feed s off' c)
    (hover : ∀ s off c c', feed (feed s off c) off c' = feed s off c') (s : σ) (off : Nat)
    (init : List (List α)) (c : List α) : deliver feed s off (init ++ [c]) = feed s off c := by
  induction init generalizing s off with
  | nil => rfl
  | cons d init ih => rw [List.cons_append, deliver, ih, hoff _ _ off, hover]

end Tle.Lib
