import Mathlib.Data.List.Infix
import Tle.Web.Lemmas.Numbers

/-!
# The id of an action of the administrator

Each chunk has to be a number below 2^32 as a whole.
-/

namespace Tle.Web
open Tle.Lib

variable {v w s t data ds junk : Text} {c d : Char} {chunks : List Text} {n m : Nat}

/-! ## One chunk -/

/-- The id that one call reads, if it does not return `MHD_NO`. -/
def idOf (data : Text) : Option Nat := (strtoulWhole (cstr data)).filter (· < 2 ^ 32)

def IsId (data : Text) : Prop := (idOf data).isSome = true

theorem idOf_nul : idOf ('\x00' :: t) = none := rfl

theorem idOf_lt (h : idOf data = some n) : n < 2 ^ 32 := by
  rw [idOf, Option.filter_eq_some_iff] at h
  exact of_decide_eq_true h.2

theorem idOf_append_nul (h : '\x00' ∉ s) (junk : Text) : idOf (s ++ '\x00' :: junk) = idOf s := by
  rw [idOf, idOf, cstr_append_of_not_mem h, cstr_nul, List.append_nil, cstr_eq_self.mpr h]

theorem idOf_space (h : isSpace c = true) (t : Text) : idOf (c :: t) = idOf t := by
  rw [idOf, idOf, cstr_cons (ne_nul_of_isSpace h), strtoulWhole_space h]

theorem nul_not_mem_digits (h : IsDigits ds) : '\x00' ∉ ds := fun hmem => ne_nul_of_isDigit (h _ hmem) rfl

theorem idOf_digits (hne : ds ≠ []) (h : IsDigits ds) :
    idOf ds = if numeral ds < 2 ^ 32 then some (numeral ds) else none := by
  cases ds with
  | nil => exact absurd rfl hne
  | cons c t =>
      obtain ⟨hc, ht⟩ := List.forall_mem_cons.mp h
      rw [idOf, cstr_eq_self.mpr (nul_not_mem_digits h), strtoulWhole_digit hc, if_pos (List.all_eq_true.mpr ht)]
      simp only [Option.filter_some, decide_eq_true_eq, wrapUlong_lt_iff]
      split
      · rename_i hlt
        rw [wrapUlong_eq hlt]
      · rfl

theorem idOf_digit (h : c.isDigit = true) : idOf [c] = some (digitValue c) := by
  have hdigits : IsDigits [c] := by simpa [IsDigits] using h
  have hle := (digit_eq h).1
  rw [idOf_digits (List.cons_ne_nil _ _) hdigits, numeral_singleton, if_pos (by omega)]

/-- A chunk that starts with a digit is read only if it has nothing else before its NUL. -/
theorem digits_of_isId (hc : c.isDigit = true) (h : IsId (c :: t)) : IsDigits (cstr (c :: t)) := by
  rw [IsId, idOf, cstr_cons (ne_nul_of_isDigit hc), strtoulWhole_digit hc] at h
  rw [cstr_cons (ne_nul_of_isDigit hc), IsDigits, List.forall_mem_cons]
  split at h
  · rename_i hall
    exact ⟨hc, List.all_eq_true.mp hall⟩
  · cases h

theorem isDigit_of_isId (h : IsId [c]) : c.isDigit = true := by
  rcases first_cases c with hspace | hdigit | hsign | ⟨hspace, hplus, hminus, hother⟩
  · rw [IsId, idOf_space hspace] at h
    cases h
  · exact hdigit
  · rcases hsign with rfl | rfl
    · cases h
    · cases h
  · by_cases hc : c = '\x00'
    · subst hc
      cases h
    · rw [IsId, idOf, cstr_cons hc, strtoulWhole_other hspace hplus hminus hother] at h
      cases h

/-! ## Values that can be cut into ids -/

/-- A minus sign can stand before this: the number zero, or one that wraps below 2^32. -/
def negatable (t : Text) : Bool :=
  t.head? = some '0' || (digitsOf t).inits.any fun ds => 2 ^ 64 - 2 ^ 32 < numeral ds && numeral ds < 2 ^ 64

/-- What `c` can be before `t`. -/
def links (c : Char) (t : Text) : Bool :=
  isSpace c || c.isDigit || (c = '+' && t.head?.any Char.isDigit) || (c = '-' && negatable t)

/-- Blanks, digits and signs that stand right before their number, with a digit at the end. -/
def chain : Text → Bool
  | [] => false
  | [c] => c.isDigit
  | c :: c' :: t => links c (c' :: t) && chain (c' :: t)

theorem chain_cons (ht : t ≠ []) : chain (c :: t) = true ↔ links c t = true ∧ chain t = true := by
  cases t with
  | nil => exact absurd rfl ht
  | cons c' t => rw [chain, Bool.and_eq_true]

theorem chain_digits (hne : ds ≠ []) (h : IsDigits ds) (hw : w = [] ∨ chain w = true) :
    chain (ds ++ w) = true := by
  induction ds with
  | nil => exact absurd rfl hne
  | cons c ds ih =>
      obtain ⟨hc, hds⟩ := List.forall_mem_cons.mp h
      have hlinks : ∀ t, links c t = true := fun t => by simp [links, hc]
      by_cases hds' : ds = []
      · subst hds'
        rcases hw with rfl | hw
        · exact hc
        · have hwne : w ≠ [] := by
            rintro rfl
            cases hw
          exact (chain_cons hwne).mpr ⟨hlinks w, hw⟩
      · exact (chain_cons (List.append_ne_nil_of_left_ne_nil hds' w)).mpr ⟨hlinks _, ih hds' hds⟩

theorem inits_digitsOf (h : IsDigits ds) (w : Text) : ds ∈ (digitsOf (ds ++ w)).inits := by
  rw [List.mem_inits, digitsOf, List.takeWhile_append_of_pos h]
  exact List.prefix_append _ _

theorem isSome_filter_ite {p : Prop} [Decidable p] :
    ((if p then some n else none).filter (· < 2 ^ 32)).isSome = true ↔ p ∧ n < 2 ^ 32 := by
  split
  · rename_i hp
    rw [Option.filter_some, and_iff_right hp]
    simp
  · rename_i hp
    exact iff_of_false (by simp) fun h => hp h.1

theorem isId_plus (hnul : '\x00' ∉ ds) :
    IsId ('+' :: ds) ↔ ds ≠ [] ∧ IsDigits ds ∧ numeral ds < 2 ^ 32 := by
  rw [IsId, idOf, cstr_cons (by decide), cstr_eq_self.mpr hnul, strtoulWhole_plus, isSome_filter_ite,
    wrapUlong_lt_iff, List.all_eq_true, and_assoc]
  rfl

theorem isId_minus (hnul : '\x00' ∉ ds) : IsId ('-' :: ds) ↔
    ds ≠ [] ∧ IsDigits ds ∧ (numeral ds = 0 ∨ 2 ^ 64 - 2 ^ 32 < numeral ds ∧ numeral ds < 2 ^ 64) := by
  rw [IsId, idOf, cstr_cons (by decide), cstr_eq_self.mpr hnul, strtoulWhole_minus, isSome_filter_ite,
    wrapUlong_neg_lt_iff, List.all_eq_true, and_assoc]
  rfl

theorem negatable_append (hne : ds ≠ []) (h : IsDigits ds)
    (hwraps : numeral ds = 0 ∨ 2 ^ 64 - 2 ^ 32 < numeral ds ∧ numeral ds < 2 ^ 64) (w : Text) :
    negatable (ds ++ w) = true := by
  rcases hwraps with hzero | hlarge
  · cases ds with
    | nil => exact absurd rfl hne
    | cons c ds =>
        have hc : c = '0' := ((numeral_eq_zero h).mp hzero) c List.mem_cons_self
        simp [negatable, hc]
  · rw [negatable, Bool.or_eq_true, List.any_eq_true]
    exact Or.inr ⟨ds, inits_digitsOf h w, by simpa using hlarge⟩

/-- A chunk that is an id in front of others. -/
theorem chain_append (hs : IsId s) (hnul : '\x00' ∉ s) (hw : w = [] ∨ chain w = true) : chain (s ++ w) = true := by
  induction s with
  | nil => cases hs
  | cons c t ih =>
      rw [List.mem_cons, not_or] at hnul
      have hne : t ≠ [] → t ++ w ≠ [] := fun ht => List.append_ne_nil_of_left_ne_nil ht w
      rcases first_cases c with hspace | hc | hsign | ⟨hspace, hplus, hminus, hother⟩
      · have ht : IsId t := by rwa [IsId, idOf_space hspace] at hs
        have hchain := ih ht hnul.2
        have htne : t ++ w ≠ [] := by
          intro hnil
          rw [hnil] at hchain
          cases hchain
        exact (chain_cons htne).mpr ⟨by simp [links, hspace], hchain⟩
      · have hdigits := digits_of_isId hc hs
        have hnul' : '\x00' ∉ c :: t := by simpa using hnul
        rw [cstr_eq_self.mpr hnul'] at hdigits
        exact chain_digits (List.cons_ne_nil _ _) hdigits hw
      · rcases hsign with rfl | rfl
        · obtain ⟨htne, hdigits, -⟩ := (isId_plus hnul.2).mp hs
          refine (chain_cons (hne htne)).mpr ⟨?_, chain_digits htne hdigits hw⟩
          cases t with
          | nil => exact absurd rfl htne
          | cons c' t => simp [links, hdigits c' List.mem_cons_self]
        · obtain ⟨htne, hdigits, hwraps⟩ := (isId_minus hnul.2).mp hs
          refine (chain_cons (hne htne)).mpr ⟨?_, chain_digits htne hdigits hw⟩
          simp [links, negatable_append htne hdigits hwraps w]
      · rw [IsId, idOf, cstr_cons (Ne.symm hnul.1), strtoulWhole_other hspace hplus hminus hother] at hs
        cases hs

theorem chain_of_isId (hs : IsId s) (hnul : '\x00' ∉ s) : chain s = true := by
  have hchain := chain_append hs hnul (Or.inl rfl)
  rwa [List.append_nil] at hchain

theorem chain_of_cuts (h : Cuts v chunks) (hids : ∀ c ∈ chunks, IsId c) : chain (cstr v) = true := by
  induction chunks generalizing v with
  | nil => exact absurd rfl h.ne_nil
  | cons c chunks ih =>
      obtain ⟨hc, hrest⟩ := List.forall_mem_cons.mp hids
      by_cases hnul : '\x00' ∈ c
      -- the first chunk has all that counts
      · obtain ⟨junk, hjunk⟩ := exists_of_nul_mem hnul
        have hcstr : cstr v = cstr c := by
          rw [← h.flatten, List.flatten_cons, hjunk, List.append_assoc, List.cons_append,
            cstr_append_of_not_mem (nul_not_mem_cstr c), cstr_nul, List.append_nil, ← hjunk]
        rw [IsId, hjunk, idOf_append_nul (nul_not_mem_cstr c)] at hc
        rw [hcstr]
        exact chain_of_isId hc (nul_not_mem_cstr c)
      · obtain ⟨-, ⟨-, rfl⟩ | ⟨w, rfl, hw⟩⟩ := h.cases_cons
        · rw [cstr_eq_self.mpr hnul]
          exact chain_of_isId hc hnul
        · rw [cstr_append_of_not_mem hnul]
          exact chain_append hc hnul (Or.inr (ih hw hrest))

theorem chain_right (h : chain (s ++ t) = true) (ht : t ≠ []) : chain t = true := by
  induction s with
  | nil => exact h
  | cons c s ih => exact ih ((chain_cons (List.append_ne_nil_of_right_ne_nil s ht)).mp h).2

/-- The first number of a chain, when it does not start with a blank. -/
theorem first_of_links (hspace : isSpace c = false) (h : links c t = true) :
    ∃ ds w, t = ds ++ w ∧ IsId (c :: ds) := by
  simp only [links, hspace, Bool.false_or, Bool.or_eq_true, Bool.and_eq_true, decide_eq_true_eq] at h
  rcases h with (hc | ⟨rfl, hhead⟩) | ⟨rfl, hnegatable⟩
  · exact ⟨[], t, rfl, by rw [IsId, idOf_digit hc]; rfl⟩
  · cases t with
    | nil => cases hhead
    | cons c' w =>
        have hc' : c'.isDigit = true := by simpa using hhead
        have hdigits : IsDigits [c'] := by simpa [IsDigits] using hc'
        have hle := (digit_eq hc').1
        refine ⟨[c'], w, rfl, (isId_plus (nul_not_mem_digits hdigits)).mpr ⟨List.cons_ne_nil _ _, hdigits, ?_⟩⟩
        rw [numeral_singleton]
        omega
  · rw [negatable, Bool.or_eq_true, decide_eq_true_eq, List.any_eq_true] at hnegatable
    rcases hnegatable with hzero | ⟨ds, hds, hlarge⟩
    · obtain ⟨w, rfl⟩ := List.head?_eq_some_iff.mp hzero
      exact ⟨['0'], w, rfl, rfl⟩
    · have hbegins : ds <+: digitsOf t := (List.mem_inits _ _).mp hds
      have hdigits : IsDigits ds := fun c hc => List.mem_takeWhile_imp (hbegins.subset hc)
      obtain ⟨w, hw⟩ := hbegins.trans (List.takeWhile_prefix _)
      have hlarge' : 2 ^ 64 - 2 ^ 32 < numeral ds ∧ numeral ds < 2 ^ 64 := by simpa using hlarge
      have hne : ds ≠ [] := by
        rintro rfl
        exact absurd hlarge'.1 (by decide)
      exact ⟨ds, w, hw.symm, (isId_minus (nul_not_mem_digits hdigits)).mpr ⟨hne, hdigits, Or.inr hlarge'⟩⟩

/-- A chain can be cut into its numbers, each with the blanks before it. -/
theorem cuts_of_chain (h : chain s = true) : ∃ chunks, Cuts s chunks ∧ ∀ c ∈ chunks, IsId c := by
  induction hn : s.length using Nat.strong_induction_on generalizing s with
  | _ n ih =>
      cases s with
      | nil => cases h
      | cons c t =>
          subst hn
          by_cases ht : t = []
          · subst ht
            have hc : c.isDigit = true := h
            refine ⟨[[c]], Cuts.whole (List.cons_ne_nil _ _), ?_⟩
            simp [IsId, idOf_digit hc]
          obtain ⟨hlinks, hchain⟩ := (chain_cons ht).mp h
          cases hspace : isSpace c with
          | true =>
              obtain ⟨chunks, hcuts, hids⟩ := ih t.length (Nat.lt_succ_self _) hchain rfl
              cases chunks with
              | nil => exact absurd rfl hcuts.ne_nil
              | cons first chunks =>
                  obtain ⟨hfirst, hrest⟩ := List.forall_mem_cons.mp hids
                  refine ⟨(c :: first) :: chunks, ⟨List.cons_ne_nil _ _, ?_, ?_⟩, ?_⟩
                  · exact List.forall_mem_cons.mpr ⟨List.cons_ne_nil _ _,
                      fun d hd => hcuts.nonempty d (List.mem_cons_of_mem _ hd)⟩
                  · rw [← hcuts.flatten]
                    rfl
                  · exact List.forall_mem_cons.mpr ⟨by rwa [IsId, idOf_space hspace], hrest⟩
          | false =>
              obtain ⟨ds, w, rfl, hid⟩ := first_of_links hspace hlinks
              by_cases hw : w = []
              · subst hw
                rw [List.append_nil]
                exact ⟨[c :: ds], Cuts.whole (List.cons_ne_nil _ _), by simpa using hid⟩
              · have hlength : w.length < (c :: (ds ++ w)).length := by
                  simp only [List.length_cons, List.length_append]
                  omega
                obtain ⟨chunks, hcuts, hids⟩ := ih w.length hlength (chain_right hchain hw) rfl
                exact ⟨(c :: ds) :: chunks, hcuts.cons (List.cons_ne_nil _ _),
                  List.forall_mem_cons.mpr ⟨hid, hids⟩⟩

/-- A value can be cut into ids exactly when the part before its first NUL is a chain of numbers. -/
theorem exists_cuts_iff : (∃ chunks, Cuts v chunks ∧ ∀ c ∈ chunks, IsId c) ↔ chain (cstr v) = true := by
  constructor
  · rintro ⟨chunks, hcuts, hids⟩
    exact chain_of_cuts hcuts hids
  · intro h
    obtain ⟨chunks, hcuts, hids⟩ := cuts_of_chain h
    by_cases hnul : '\x00' ∈ v
    -- the last chunk takes the NUL and what follows it
    · obtain ⟨junk, hjunk⟩ := exists_of_nul_mem hnul
      obtain ⟨init, s, rfl, hs, hsuffix⟩ := hcuts.last
      have hnul' : '\x00' ∉ s := fun hmem => nul_not_mem_cstr v (hsuffix.subset hmem)
      refine ⟨init ++ [s ++ '\x00' :: junk], ⟨by simp, ?_, ?_⟩, ?_⟩
      · intro c hc
        rcases List.mem_append.mp hc with hc | hc
        · exact hcuts.nonempty c (List.mem_append_left _ hc)
        · rw [List.mem_singleton.mp hc]
          simp
      · have hflatten := hcuts.flatten
        rw [List.flatten_append, List.flatten_singleton] at hflatten ⊢
        rw [← List.append_assoc, hflatten, ← hjunk]
      · intro c hc
        rcases List.mem_append.mp hc with hc | hc
        · exact hids c (List.mem_append_left _ hc)
        · rw [List.mem_singleton.mp hc, IsId, idOf_append_nul hnul']
          exact hids s (List.mem_append_right _ (List.mem_singleton_self s))
    · rw [cstr_eq_self.mpr hnul] at hcuts
      exact ⟨chunks, hcuts, hids⟩

example : chain " -0+7 12".toList = true ∧ chain "1-2".toList = false := by decide +kernel

/-! ## The id that the chunks leave -/

/-- The last id before the first chunk that is none. -/
def lastId (id : Option Nat) : List Text → Option Nat
  | [] => id
  | c :: chunks =>
      match idOf c with
      | none => id
      | some n => lastId (some n) chunks

variable {id : Option Nat}

theorem lastId_of_none (h : idOf s = none) (id : Option Nat) (chunks : List Text) :
    lastId id (s :: chunks) = id := by
  rw [lastId, h]

theorem lastId_of_some (h : idOf s = some n) (id : Option Nat) (chunks : List Text) :
    lastId id (s :: chunks) = lastId (some n) chunks := by
  rw [lastId, h]

/-- After a NUL, no chunk is another id than `n` unless more is to follow and can only be read as an id. -/
def Quiet (n : Nat) (junk : Text) : Prop :=
  ∀ a p b, junk = a ++ p ++ b → ∀ m, idOf p = some m →
    m = n ∨ b ≠ [] ∧ ∀ q, q ≠ [] → q <+: b → IsId q

/-- Nothing, or a NUL and what is quiet after it. -/
def Ends (n : Nat) (rest : Text) : Prop := rest = [] ∨ ∃ junk, rest = '\x00' :: junk ∧ Quiet n junk

/-- Zeros and one digit, alone or before a NUL. -/
def LoneDigit (v : Text) : Prop :=
  ∃ (k : Nat) (d : Char) (rest : Text), v = List.replicate k '0' ++ d :: rest ∧ d.isDigit = true ∧
    Ends (digitValue d) rest

theorem isDigits_zeros_digit (hd : d.isDigit = true) (k : Nat) : IsDigits (List.replicate k '0' ++ [d]) := by
  intro c hc
  rcases List.mem_append.mp hc with hc | hc
  · rw [List.eq_of_mem_replicate hc]
    rfl
  · rwa [List.mem_singleton.mp hc]

theorem idOf_zeros_digit (hd : d.isDigit = true) (k : Nat) :
    idOf (List.replicate k '0' ++ [d]) = some (digitValue d) := by
  have hle := (digit_eq hd).1
  rw [idOf_digits (by simp) (isDigits_zeros_digit hd k), numeral_zeros_digit, if_pos (by omega)]

theorem idOf_zeros {k : Nat} (hk : k ≠ 0) : idOf (List.replicate k '0') = some 0 := by
  obtain ⟨k, rfl⟩ := Nat.exists_eq_succ_of_ne_zero hk
  rw [List.replicate_succ']
  exact idOf_zeros_digit rfl k

/-- The chunks of what is left of the text after the NUL. -/
theorem lastId_quiet {a : Text} (hquiet : Quiet n junk) (hjunk : junk = a ++ chunks.flatten)
    (hne : ∀ c ∈ chunks, c ≠ [])
    (hm : m = n ∨ chunks.flatten ≠ [] ∧ ∀ q, q ≠ [] → q <+: chunks.flatten → IsId q) :
    lastId (some m) chunks = some n := by
  induction chunks generalizing a m with
  | nil => rw [lastId, hm.resolve_right fun hright => hright.1 rfl]
  | cons c chunks ih =>
      obtain ⟨hc, hrest⟩ := List.forall_mem_cons.mp hne
      rw [List.flatten_cons] at hjunk hm
      cases hid : idOf c with
      | none =>
          have hno : ¬ IsId c := by simp [IsId, hid]
          rw [lastId_of_none hid, hm.resolve_right fun hright => hno (hright.2 c hc (List.prefix_append _ _))]
      | some m' =>
          rw [lastId_of_some hid]
          rw [← List.append_assoc] at hjunk
          exact ih hjunk hrest (hquiet a c chunks.flatten hjunk m' hid)

/-- The chunk with the digit, and the chunks after it. -/
theorem lastId_ends (hd : d.isDigit = true) {rest : Text} (hrest : Ends (digitValue d) rest)
    (hs : rest = s ++ chunks.flatten) (hne : ∀ c ∈ chunks, c ≠ []) (k : Nat) :
    idOf (List.replicate k '0' ++ d :: s) = some (digitValue d) ∧
      lastId (some (digitValue d)) chunks = some (digitValue d) := by
  have hid := idOf_zeros_digit hd k
  rcases hrest with rfl | ⟨junk, rfl, hquiet⟩
  · obtain ⟨rfl, hnil⟩ := List.append_eq_nil_iff.mp hs.symm
    refine ⟨hid, ?_⟩
    cases chunks with
    | nil => rfl
    | cons c chunks =>
        exact absurd (List.flatten_eq_nil_iff.mp hnil c List.mem_cons_self) (hne c List.mem_cons_self)
  · cases s with
    | nil =>
        refine ⟨hid, ?_⟩
        cases chunks with
        | nil => rfl
        | cons c chunks =>
            cases c with
            | nil => exact absurd rfl (hne [] List.mem_cons_self)
            | cons e c =>
                have he : '\x00' = e := (List.cons.inj hs).1
                subst he
                exact lastId_of_none idOf_nul _ chunks
    | cons e a =>
        obtain ⟨rfl, hjunk⟩ := List.cons.inj hs
        have hnul : '\x00' ∉ List.replicate k '0' ++ [d] := nul_not_mem_digits (isDigits_zeros_digit hd k)
        refine ⟨?_, lastId_quiet hquiet hjunk hne (Or.inl rfl)⟩
        have happend := idOf_append_nul hnul a
        rwa [List.append_assoc, List.singleton_append, hid] at happend

/-- The chunks from somewhere in the zeros on. -/
theorem lastId_zeros (hd : d.isDigit = true) {k : Nat} {rest : Text} (hrest : Ends (digitValue d) rest)
    (hv : chunks.flatten = List.replicate k '0' ++ d :: rest) (hne : ∀ c ∈ chunks, c ≠ []) (id : Option Nat) :
    lastId id chunks = some (digitValue d) := by
  induction chunks generalizing k id with
  | nil => simp at hv
  | cons c chunks ih =>
      obtain ⟨hc, hchunks⟩ := List.forall_mem_cons.mp hne
      rw [List.flatten_cons] at hv
      have hzero : ∀ {j}, c = List.replicate j '0' → idOf c = some 0 := by
        intro j hj
        rw [hj]
        apply idOf_zeros
        rintro rfl
        exact hc hj
      rcases List.append_eq_append_iff.mp hv with ⟨zeros, hzeros, htail⟩ | ⟨s, hs, htail⟩
      · obtain ⟨-, hc', hzeros'⟩ := List.replicate_eq_append_iff.mp hzeros
        rw [lastId_of_some (hzero hc')]
        rw [hzeros'] at htail
        exact ih htail hchunks _
      · cases s with
        | nil =>
            rw [List.append_nil] at hs
            rw [lastId_of_some (hzero hs)]
            exact ih (k := 0) htail.symm hchunks _
        | cons e s =>
            obtain ⟨rfl, hrest'⟩ := List.cons.inj htail
            obtain ⟨hid, hlast⟩ := lastId_ends hd hrest hrest' hchunks k
            rw [lastId_of_some (hs ▸ hid), hlast]

/-! ## The same id however the value is cut -/

/-- However the value is cut, `n` is left. -/
def SameId (n : Nat) (v : Text) : Prop := ∀ chunks, Cuts v chunks → lastId none chunks = some n

theorem SameId.idOf_eq (h : SameId n v) (hv : v ≠ []) : idOf v = some n := by
  have hwhole := h [v] (Cuts.whole hv)
  cases hid : idOf v with
  | none =>
      rw [lastId_of_none hid] at hwhole
      cases hwhole
  | some m => rwa [lastId_of_some hid] at hwhole

theorem SameId.digit (h : SameId n (c :: t)) : c.isDigit = true := by
  obtain ⟨chunks, hcuts⟩ := Cuts.exists_of_prefix (q := [c]) (List.cons_ne_nil _ _) ⟨t, rfl⟩
  have hlast := h _ hcuts
  apply isDigit_of_isId
  cases hid : idOf [c] with
  | none =>
      rw [lastId_of_none hid] at hlast
      cases hlast
  | some m => simp [IsId, hid]

theorem idOf_append_ends {rest : Text} (hnul : '\x00' ∉ s) (hrest : rest = [] ∨ ∃ junk, rest = '\x00' :: junk) :
    idOf (s ++ rest) = idOf s := by
  rcases hrest with rfl | ⟨junk, rfl⟩
  · rw [List.append_nil]
  · exact idOf_append_nul hnul junk

/-- The digits but the last one are zeros, or its chunk alone would be another id. -/
theorem SameId.zeros {u rest : Text} (hdigits : IsDigits (u ++ [d]))
    (hrest : rest = [] ∨ ∃ junk, rest = '\x00' :: junk) (h : SameId n (u ++ d :: rest)) :
    u = List.replicate u.length '0' ∧ n = digitValue d := by
  have hu : IsDigits u := fun c hc => hdigits c (List.mem_append_left _ hc)
  have hd : d.isDigit = true := hdigits d (by simp)
  have hdrest : idOf (d :: rest) = some (digitValue d) :=
    (idOf_append_ends (s := [d]) (nul_not_mem_digits (by simpa [IsDigits] using hd)) hrest).trans (idOf_digit hd)
  by_cases hnil : u = []
  · subst hnil
    have hn := h.idOf_eq (List.cons_ne_nil _ _)
    rw [List.nil_append, hdrest] at hn
    exact ⟨rfl, (Option.some.inj hn).symm⟩
  · have hn := h.idOf_eq (by simp)
    have hwhole := idOf_append_ends (nul_not_mem_digits hdigits) hrest
    rw [List.append_assoc, List.singleton_append, hn, idOf_digits (by simp) hdigits, numeral_concat] at hwhole
    split at hwhole
    · rename_i hlt
      have hidu : idOf u = some (numeral u) := by
        rw [idOf_digits hnil hu, if_pos (by omega)]
      have hlast := h [u, d :: rest] (Cuts.cons hnil (Cuts.whole (List.cons_ne_nil _ _)))
      rw [lastId_of_some hidu, lastId_of_some hdrest] at hlast
      have hlast' := Option.some.inj hlast
      have hzero : numeral u = 0 := by
        have hwhole' := Option.some.inj hwhole
        omega
      exact ⟨List.eq_replicate_of_mem ((numeral_eq_zero hu).mp hzero), hlast'.symm⟩
    · cases hwhole

theorem SameId.quiet (hs : idOf s = some n) (hnul : '\x00' ∉ s) (hne : s ≠ [])
    (h : SameId n (s ++ '\x00' :: junk)) : Quiet n junk := by
  intro a p b hjunk m hp
  have hfirst : idOf (s ++ '\x00' :: a) = some n := (idOf_append_nul hnul a).trans hs
  have hv : s ++ '\x00' :: junk = (s ++ '\x00' :: a) ++ (p ++ b) := by simp [hjunk]
  have hpne : p ≠ [] := by
    rintro rfl
    cases hp
  have hfirstne : s ++ '\x00' :: a ≠ [] := List.append_ne_nil_of_left_ne_nil hne _
  by_cases hm : m = n
  · exact Or.inl hm
  · refine Or.inr ⟨?_, fun q hq hbegins => ?_⟩
    · rintro rfl
      have hcuts := Cuts.cons hfirstne (Cuts.whole hpne)
      rw [List.append_nil] at hv
      rw [← hv] at hcuts
      have hlast := h _ hcuts
      rw [lastId_of_some hfirst, lastId_of_some hp] at hlast
      exact hm (Option.some.inj hlast)
    · obtain ⟨chunks, hb⟩ := Cuts.exists_of_prefix hq hbegins
      have hcuts := Cuts.cons hfirstne (Cuts.cons hpne hb)
      rw [← hv] at hcuts
      have hlast := h _ hcuts
      rw [lastId_of_some hfirst, lastId_of_some hp] at hlast
      by_contra hno
      have hq' : idOf q = none := by simpa [IsId] using hno
      rw [lastId_of_none hq'] at hlast
      exact hm (Option.some.inj hlast)

theorem loneDigit_of_sameId (hv : v ≠ []) (h : SameId n v) : LoneDigit v := by
  cases v with
  | nil => exact absurd rfl hv
  | cons c t =>
      have hid : IsId (c :: t) := by simp [IsId, h.idOf_eq hv]
      have hdigits := digits_of_isId h.digit hid
      have hsplit : ∃ rest, c :: t = cstr (c :: t) ++ rest ∧ (rest = [] ∨ ∃ junk, rest = '\x00' :: junk) := by
        by_cases hnul : '\x00' ∈ c :: t
        · obtain ⟨junk, hjunk⟩ := exists_of_nul_mem hnul
          exact ⟨'\x00' :: junk, hjunk, Or.inr ⟨junk, rfl⟩⟩
        · exact ⟨[], by rw [cstr_eq_self.mpr hnul, List.append_nil], Or.inl rfl⟩
      obtain ⟨rest, hrest, hends⟩ := hsplit
      have hne : cstr (c :: t) ≠ [] := by
        rw [cstr_cons (ne_nul_of_isDigit h.digit)]
        exact List.cons_ne_nil _ _
      generalize cstr (c :: t) = ds at hdigits hrest hne
      obtain ⟨u, d, rfl⟩ := (List.eq_nil_or_concat ds).resolve_left hne
      rw [List.concat_eq_append] at hdigits hrest
      rw [hrest] at h
      have hd : d.isDigit = true := hdigits d (by simp)
      have h' := h
      rw [List.append_assoc, List.singleton_append] at h'
      obtain ⟨hu, rfl⟩ := h'.zeros hdigits hends
      refine ⟨u.length, d, rest, ?_, hd, ?_⟩
      · rw [hrest, List.append_assoc, List.singleton_append, ← hu]
      · rcases hends with rfl | ⟨junk, rfl⟩
        · exact Or.inl rfl
        · have hids : idOf (u ++ [d]) = some (digitValue d) := by
            rw [hu]
            exact idOf_zeros_digit hd u.length
          exact Or.inr ⟨junk, rfl, h.quiet hids (nul_not_mem_digits hdigits) (by simp)⟩

theorem sameId_of_loneDigit (h : LoneDigit v) : ∃ n, SameId n v := by
  obtain ⟨k, d, rest, rfl, hd, hends⟩ := h
  exact ⟨digitValue d, fun chunks hcuts => lastId_zeros hd hends hcuts.flatten hcuts.nonempty none⟩

theorem lastId_isSome (hids : ∀ c ∈ chunks, IsId c) (h : id.isSome = true ∨ chunks ≠ []) :
    (lastId id chunks).isSome = true := by
  induction chunks generalizing id with
  | nil => exact h.resolve_right (fun hne => hne rfl)
  | cons c chunks ih =>
      obtain ⟨hc, hrest⟩ := List.forall_mem_cons.mp hids
      obtain ⟨n, hn⟩ := Option.isSome_iff_exists.mp hc
      rw [lastId_of_some hn]
      exact ih hrest (Or.inl rfl)

/-- Every cut has a chunk that is no id, or all cuts leave the id of the whole value. -/
theorem ids_iff : ((∀ chunks, Cuts v chunks → ∃ c ∈ chunks, idOf c = none) ∨
      ∀ chunks, Cuts v chunks → lastId none chunks = lastId none [v]) ↔
    chain (cstr v) = false ∨ LoneDigit v := by
  have hchain : chain (cstr v) = false ↔ ∀ chunks, Cuts v chunks → ∃ c ∈ chunks, idOf c = none := by
    rw [← Bool.not_eq_true, ← exists_cuts_iff]
    simp [IsId]
  rw [hchain]
  constructor
  · rintro (hrefused | hsame)
    · exact Or.inl hrefused
    · by_cases hno : ∀ chunks, Cuts v chunks → ∃ c ∈ chunks, idOf c = none
      · exact Or.inl hno
      · rw [← hchain, Bool.not_eq_false, ← exists_cuts_iff] at hno
        obtain ⟨chunks, hcuts, hids⟩ := hno
        obtain ⟨n, hn⟩ := Option.isSome_iff_exists.mp (lastId_isSome hids (Or.inr hcuts.ne_nil))
        rw [hsame chunks hcuts] at hn
        exact Or.inr (loneDigit_of_sameId hcuts.value_ne_nil fun chunks' hcuts' => (hsame chunks' hcuts').trans hn)
  · rintro (hrefused | hlone)
    · exact Or.inl hrefused
    · obtain ⟨n, hn⟩ := sameId_of_loneDigit hlone
      exact Or.inr fun chunks hcuts => (hn chunks hcuts).trans (hn [v] (Cuts.whole hcuts.value_ne_nil)).symm

end Tle.Web
