import Tle.Grade.Lemmas.TokenBuffer

/-!
# Comparing with a buffer
-/

namespace Tle.Grade.Buffered
open Tle.Lib

variable {heap : Heap} {f g f₁ f₂ seps seps' : Text}

/-! ## One token -/

/-- The blocks that hold zeros. -/
def zeroed : Heap where
  grant n := some (List.replicate n '\x00')
  length_grant := by
    intro n block h
    cases h
    exact List.length_replicate

theorem zeroed_grants (n : Nat) : zeroed.Grants n := ⟨_, rfl⟩

/-- `get_next_token` has no undefined behaviour exactly when the next token has fewer than `2 ^ 30` bytes and the
blocks for it are granted. -/
theorem getNextToken_defined_iff (heap : Heap) (fp : Text) :
    (∃ result, getNextToken heap fp = .ok result) ↔ ∀ tok, (tokens fp).head? = some tok →
      tok.length < 2 ^ 30 ∧ heap.Grants 256 ∧ ∀ k, 256 * 2 ^ k ≤ tok.length → heap.Grants (256 * 2 ^ (k + 1)) := by
  cases hnext : Grade.getNextToken fp with
  | mk next rest =>
      cases next with
      | none =>
          rw [getNextToken_of_none hnext, getNextToken_none hnext]
          simp
      | some tok =>
          have hhead : (tokens fp).head? = some tok := by rw [(getNextToken_some hnext).1, List.head?_cons]
          rw [hhead]
          simp only [Option.some.injEq, forall_eq', ← fits_iff]
          constructor
          · intro hok
            by_contra hfits
            obtain ⟨e, herror⟩ := getNextToken_of_not_fits hnext hfits
            obtain ⟨result, hresult⟩ := hok
            rw [herror] at hresult
            cases hresult
          · intro hfits
            obtain ⟨block, hok, -⟩ := getNextToken_of_fits hnext hfits
            exact ⟨_, hok⟩

theorem readToken_replicate {c : Char} (hc : isWhitespace c = false) (n : Nat) :
    readToken (List.replicate n c) = (List.replicate n c, []) := by
  induction n with
  | zero => rfl
  | succ n ih => rw [List.replicate_succ, readToken_other hc, ih]

theorem getNextToken_replicate {c : Char} (hc : isWhitespace c = false) (n : Nat) :
    Grade.getNextToken (List.replicate (n + 1) c) = (some (List.replicate (n + 1) c), []) := by
  have hskip : skipWhitespace (List.replicate (n + 1) c) = some (c, List.replicate n c) := by
    simp [List.replicate_succ, skipWhitespace, hc]
  rw [Grade.getNextToken, hskip]
  simp only [readToken_replicate hc]
  rfl

/-- A line of `2 ^ 30` bytes without a blank. -/
theorem long_token_overflows : ∃ fault, getNextToken zeroed (List.replicate (2 ^ 30) 'x') = .error fault := by
  have hnext := getNextToken_replicate (c := 'x') rfl (2 ^ 30 - 1)
  apply getNextToken_of_not_fits hnext
  rw [fits_iff, List.length_replicate]
  intro h
  exact absurd h.1 (by omega)

/-! ## Two files -/

/-- All tokens of the file have fewer than `2 ^ 30` bytes. -/
def Short (f : Text) : Prop := ∀ tok ∈ tokens f, tok.length < 2 ^ 30

/-- A file that is readable, with such tokens. -/
abbrev ShortFile := { f : Text // Short f }

theorem fits_of_short (hheap : ∀ n, heap.Grants n) {n : Nat} (hn : n < 2 ^ 30) : Fits heap n :=
  fits_iff.mpr ⟨hn, hheap _, fun _ _ => hheap _⟩

/-- The next token of such a file is the first of its tokens. -/
theorem getNextToken_short (hheap : ∀ n, heap.Grants n) (hf : Short f) :
    (∃ rest, getNextToken heap f = .ok (none, rest) ∧ tokens f = []) ∨
      ∃ block rest, getNextToken heap f = .ok (some block, rest) ∧ tokens f = cstr block :: tokens rest := by
  cases hnext : Grade.getNextToken f with
  | mk next rest =>
      cases next with
      | none => exact Or.inl ⟨rest, getNextToken_of_none hnext, getNextToken_none hnext⟩
      | some tok =>
          have htokens := (getNextToken_some hnext).1
          have hlength : tok.length < 2 ^ 30 := hf tok (by rw [htokens]; exact List.mem_cons_self)
          obtain ⟨block, hok, hblock⟩ := getNextToken_of_fits hnext (fits_of_short hheap hlength)
          exact Or.inr ⟨block, rest, hok, hblock ▸ htokens⟩

theorem getNextToken_ne_error {e : Fault} (hheap : ∀ n, heap.Grants n) (hf : Short f) :
    getNextToken heap f ≠ .error e := by
  intro herror
  obtain ⟨rest, hok, -⟩ | ⟨block, rest, hok, -⟩ := getNextToken_short hheap hf
  · rw [hok] at herror
    cases herror
  · rw [hok] at herror
    cases herror

theorem tokens_of_end {rest : Text} (hheap : ∀ n, heap.Grants n) (hf : Short f)
    (h : getNextToken heap f = .ok (none, rest)) : tokens f = [] := by
  obtain ⟨rest', hok, htokens⟩ | ⟨block, rest', hok, -⟩ := getNextToken_short hheap hf
  · exact htokens
  · rw [hok] at h
    cases h

theorem tokens_of_token {block rest : Text} (hheap : ∀ n, heap.Grants n) (hf : Short f)
    (h : getNextToken heap f = .ok (some block, rest)) : tokens f = cstr block :: tokens rest := by
  obtain ⟨rest', hok, -⟩ | ⟨block', rest', hok, htokens⟩ := getNextToken_short hheap hf
  · rw [hok] at h
    cases h
  · rw [hok] at h
    cases h
    exact htokens

/-- With room for every token the comparison is that of the tokens. -/
theorem matchTokens_short {heap : Heap} {f g : Text} (hheap : ∀ n, heap.Grants n) (hf : Short f) (hg : Short g) :
    matchTokens heap f g = .ok (if tokens f = tokens g then 1 else 0) := by
  rw [matchTokens]
  split
  · rename_i h1
    exact absurd h1 (getNextToken_ne_error hheap hf)
  · rename_i h2
    exact absurd h2 (getNextToken_ne_error hheap hg)
  · rename_i h1 h2
    rw [tokens_of_end hheap hf h1, tokens_of_end hheap hg h2]
    rfl
  · rename_i h1 h2
    rw [tokens_of_token hheap hf h1, tokens_of_end hheap hg h2]
    simp
  · rename_i h1 h2
    rw [tokens_of_end hheap hf h1, tokens_of_token hheap hg h2]
    simp
  · rename_i t1 f' t2 g' h1 h2
    have htokens1 := tokens_of_token hheap hf h1
    have htokens2 := tokens_of_token hheap hg h2
    have hf' : Short f' := fun tok htok => hf tok (htokens1 ▸ List.mem_cons_of_mem _ htok)
    have hg' : Short g' := fun tok htok => hg tok (htokens2 ▸ List.mem_cons_of_mem _ htok)
    have hshort : f'.length < f.length := getNextToken_length h1
    have hrest := matchTokens_short hheap hf' hg'
    rw [htokens1, htokens2, hrest]
    by_cases heq : cstr t1 = cstr t2 <;> simp [heq]
termination_by f.length
decreasing_by exact hshort

/-- On such files the buffer changes nothing. -/
theorem matchTokens_refines (hheap : ∀ n, heap.Grants n) (hf : Short f) (hg : Short g) :
    matchTokens heap f g = .ok (Grade.matchTokens f g) := by
  rw [matchTokens_short hheap hf hg, matchTokens_eq]

theorem safeTkcmp_short (hheap : ∀ n, heap.Grants n) (hf : Short f) (hg : Short g) :
    safeTkcmp heap (some f) (some g) = .ok (if tokens f = tokens g then 1 else 0) := by
  rw [safeTkcmp, matchTokens_short hheap hf hg]

theorem short_of_tokens_eq (h : tokens f = tokens g) (hf : Short f) : Short g := by
  rw [Short, ← h]
  exact hf

/-- Only the tokens count, on either side. -/
theorem safeTkcmp_congr (hheap : ∀ n, heap.Grants n) (h : tokens f = tokens f₁) (hf : Short f) (hg : Short g) :
    safeTkcmp heap (some f) (some g) = safeTkcmp heap (some f₁) (some g) ∧
      safeTkcmp heap (some g) (some f) = safeTkcmp heap (some g) (some f₁) := by
  have hf₁ := short_of_tokens_eq h hf
  rw [safeTkcmp_short hheap hf hg, safeTkcmp_short hheap hf₁ hg, safeTkcmp_short hheap hg hf,
    safeTkcmp_short hheap hg hf₁, h]
  exact ⟨rfl, rfl⟩

theorem safeTkcmp_eq_one (hheap : ∀ n, heap.Grants n) (hf : Short f) (hg : Short g) :
    safeTkcmp heap (some f) (some g) = .ok 1 ↔ tokens f = tokens g := by
  rw [safeTkcmp_short hheap hf hg]
  by_cases heq : tokens f = tokens g
  · simp [heq]
  · simp [heq]

theorem safeTkcmp_equivalence (hheap : ∀ n, heap.Grants n) :
    Equivalence fun f g : ShortFile => safeTkcmp heap (some f.val) (some g.val) = .ok 1 where
  refl f := (safeTkcmp_eq_one hheap f.property f.property).mpr rfl
  symm := by
    intro f g h
    rw [safeTkcmp_eq_one hheap f.property g.property] at h
    exact (safeTkcmp_eq_one hheap g.property f.property).mpr h.symm
  trans := by
    intro f g h hfg hgh
    rw [safeTkcmp_eq_one hheap f.property g.property] at hfg
    rw [safeTkcmp_eq_one hheap g.property h.property] at hgh
    exact (safeTkcmp_eq_one hheap f.property h.property).mpr (hfg.trans hgh)

theorem tokens_seps_append (hseps : ∀ c ∈ seps, isWhitespace c = true) (f : Text) :
    tokens f = tokens (seps ++ f) := (fields_seps_append hseps f).symm

theorem tokens_append_seps (hseps : ∀ c ∈ seps, isWhitespace c = true) (f : Text) :
    tokens f = tokens (f ++ seps) := by
  by_cases hne : seps = []
  · rw [hne, List.append_nil]
  · have happend := fields_append_seps hne hseps f []
    rw [List.append_nil, fields_nil, List.append_nil] at happend
    exact happend.symm

/-- `safe_tkcmp` returns 1 for files with the same tokens and 0 for other ones. So it is an equivalence, and how
many separators there are at the start, at the end and between two tokens does not matter. -/
theorem safeTkcmp_spec (heap : Heap) (hheap : ∀ n, heap.Grants n) :
    (∀ f g, Short f → Short g →
      safeTkcmp heap (some f) (some g) = .ok (if tokens f = tokens g then 1 else 0)) ∧
    Equivalence (fun f g : ShortFile => safeTkcmp heap (some f.val) (some g.val) = .ok 1) ∧
    (∀ f g seps, (∀ c ∈ seps, isWhitespace c = true) → Short f → Short g →
      (safeTkcmp heap (some f) (some g) = safeTkcmp heap (some (seps ++ f)) (some g) ∧
        safeTkcmp heap (some g) (some f) = safeTkcmp heap (some g) (some (seps ++ f))) ∧
      safeTkcmp heap (some f) (some g) = safeTkcmp heap (some (f ++ seps)) (some g) ∧
        safeTkcmp heap (some g) (some f) = safeTkcmp heap (some g) (some (f ++ seps))) ∧
    (∀ f₁ f₂ g seps seps', seps ≠ [] → seps' ≠ [] → (∀ c ∈ seps, isWhitespace c = true) →
      (∀ c ∈ seps', isWhitespace c = true) → Short (f₁ ++ (seps ++ f₂)) → Short g →
      safeTkcmp heap (some (f₁ ++ (seps ++ f₂))) (some g) = safeTkcmp heap (some (f₁ ++ (seps' ++ f₂))) (some g) ∧
        safeTkcmp heap (some g) (some (f₁ ++ (seps ++ f₂))) =
          safeTkcmp heap (some g) (some (f₁ ++ (seps' ++ f₂)))) := by
  refine ⟨fun f g hf hg => safeTkcmp_short hheap hf hg, safeTkcmp_equivalence hheap, ?_, ?_⟩
  · intro f g seps hseps hf hg
    constructor
    · exact safeTkcmp_congr hheap (tokens_seps_append hseps f) hf hg
    · exact safeTkcmp_congr hheap (tokens_append_seps hseps f) hf hg
  · intro f₁ f₂ g seps seps' hne hne' hseps hseps' hf hg
    apply safeTkcmp_congr hheap _ hf hg
    rw [tokens, tokens, fields_append_seps hne hseps, fields_append_seps hne' hseps']

theorem safeTkcmp_spec_sample :
    safeTkcmp zeroed (some "1 2\n".toList) (some "\t1\n\n2".toList) = .ok 1 ∧
      safeTkcmp zeroed (some "1 2\n".toList) (some "12".toList) = .ok 0 := by
  have hf : Short "1 2\n".toList := by
    rw [Short]
    decide
  have hg : Short "\t1\n\n2".toList := by
    rw [Short]
    decide
  have hg' : Short "12".toList := by
    rw [Short]
    decide
  have hspec := (safeTkcmp_spec zeroed zeroed_grants).1
  constructor
  · rw [hspec _ _ hf hg, if_pos (by decide)]
  · rw [hspec _ _ hf hg', if_neg (by decide)]

end Tle.Grade.Buffered
