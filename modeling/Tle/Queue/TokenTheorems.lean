import Mathlib.Data.List.Nodup
import Tle.Lib.Fields
import Tle.Queue.Tokens

/-!
# Which claims have tokens of their own
-/

namespace Tle.Queue.Tokens
open Tle.Lib

variable {c c' : Call} {cs : List Call} {h : Host} {es : List HostEvent} {i : Nat}

/-! ## The text of a token -/

theorem dash_not_mem_formatUnsigned (n : Nat) : '-' ∉ formatUnsigned n := by
  intro hmem
  exact absurd (isDigit_of_mem_formatUnsigned hmem) (by decide)

theorem formatUnsigned_inj {m n : Nat} : formatUnsigned m = formatUnsigned n ↔ m = n := by
  constructor
  · intro heq
    have hscan := congrArg (fun s => Nat.ofDigitChars 10 s 0) heq
    simpa only [formatUnsigned, Nat.ofDigitChars_ten_toDigits] using hscan
  · rintro rfl
    rfl

theorem Call.format_eq (c : Call) : c.format = formatUnsigned c.pid.value ++ '-' ::
    (formatUnsigned c.now.nsec ++ '-' :: formatUnsigned c.sequence.toNat) := rfl

theorem Call.format_inj : c.format = c'.format ↔
    c.pid = c'.pid ∧ c.now.nsec = c'.now.nsec ∧ c.sequence = c'.sequence := by
  have hpid : c.pid.value = c'.pid.value ↔ c.pid = c'.pid := by
    cases hc : c.pid
    cases hc' : c'.pid
    simp
  rw [format_eq, format_eq, append_cons_inj (dash_not_mem_formatUnsigned _) (dash_not_mem_formatUnsigned _),
    append_cons_inj (dash_not_mem_formatUnsigned _) (dash_not_mem_formatUnsigned _)]
  simp only [formatUnsigned_inj, hpid, BitVec.toNat_inj]

theorem Call.length_format (c : Call) : c.format.length ≤ 31 := by
  have hpid : (formatUnsigned c.pid.value).length ≤ 10 :=
    (Nat.length_toDigits_le_iff (by decide) (by decide)).mpr (Nat.lt_trans c.pid.lt (by decide))
  have hnsec : (formatUnsigned c.now.nsec).length ≤ 9 :=
    (Nat.length_toDigits_le_iff (by decide) (by decide)).mpr c.now.nsec_lt
  have hsequence : (formatUnsigned c.sequence.toNat).length ≤ 10 :=
    (Nat.length_toDigits_le_iff (by decide) (by decide)).mpr (Nat.lt_trans c.sequence.isLt (by decide))
  rw [format_eq]
  simp only [List.length_append, List.length_cons]
  omega

theorem Call.nul_not_mem_format (c : Call) : '\x00' ∉ c.format := by
  have hdigits : ∀ n, '\x00' ∉ formatUnsigned n := by
    intro n hmem
    exact absurd (isDigit_of_mem_formatUnsigned hmem) (by decide)
  simp [format_eq, hdigits]

/-- Both arrays have room for the whole token. -/
theorem inArray_format (c : Call) : inArray 96 c.format = c.format := by
  have hlength := c.length_format
  rw [inArray, cstr_eq_self.mpr c.nul_not_mem_format]
  exact List.take_of_length_le (by omega)

theorem Call.token_eq (c : Call) : c.token = c.format := inArray_format c

theorem Call.jobToken_eq (c : Call) : c.jobToken = c.format := by
  rw [jobToken, token_eq, inArray_format]

/-! ## The counters -/

/-- Each process has numbered its calls. -/
structure Numbered (cs : List Call) (h : Host) : Prop where
  counter : ∀ i p, h.processes[i]? = some p → p.sequence = BitVec.ofNat 32 (callsOf i cs).length
  fresh : ∀ i, h.processes.length ≤ i → callsOf i cs = []
  numbers : ∀ i, (callsOf i cs).map (·.sequence) =
    (List.range (callsOf i cs).length).map (BitVec.ofNat 32)

theorem callsOf_snoc_self (hc : c.process = i) : callsOf i (cs ++ [c]) = callsOf i cs ++ [c] := by
  simp [callsOf, hc]

theorem callsOf_snoc_other (hc : c.process ≠ i) : callsOf i (cs ++ [c]) = callsOf i cs := by
  simp [callsOf, hc]

theorem Numbered.start (hn : Numbered cs h) (pid : Pid) : Numbered cs ⟨h.processes ++ [{ pid := pid }]⟩ where
  counter := by
    intro i p hp
    rcases Nat.lt_trichotomy i h.processes.length with hlt | heq | hlt
    · rw [List.getElem?_append_left hlt] at hp
      exact hn.counter i p hp
    · subst heq
      rw [hn.fresh _ (Nat.le_refl _)]
      simp only [List.getElem?_concat_length, Option.some.injEq] at hp
      rw [← hp]
      rfl
    · rw [List.getElem?_eq_none (by simp; omega)] at hp
      cases hp
  fresh := by
    intro i hle
    apply hn.fresh
    rw [List.length_append] at hle
    omega
  numbers := hn.numbers

theorem Numbered.exit (hn : Numbered cs h) (j : Nat) :
    Numbered cs ⟨h.processes.modify j fun p => { p with running := false }⟩ where
  counter := by
    intro i p hp
    rw [List.getElem?_modify] at hp
    obtain ⟨q, hq, rfl⟩ := Option.map_eq_some_iff.mp hp
    rw [← hn.counter i q hq]
    split <;> rfl
  fresh := by
    intro i hle
    rw [List.length_modify] at hle
    exact hn.fresh i hle
  numbers := hn.numbers

theorem Numbered.claim (hn : Numbered cs h) {p : Process} (hp : h.processes[i]? = some p) (hc : c.process = i)
    (hsequence : c.sequence = p.sequence) :
    Numbered (cs ++ [c]) ⟨h.processes.set i { p with sequence := p.sequence + 1 }⟩ where
  counter := by
    intro j q hq
    by_cases hj : j = i
    · subst hj
      have hlt : j < h.processes.length := (List.getElem?_eq_some_iff.mp hp).1
      rw [List.getElem?_set_self hlt] at hq
      cases hq
      rw [callsOf_snoc_self hc, List.length_append, List.length_singleton, hn.counter j p hp]
      simp [BitVec.ofNat_add]
    · rw [List.getElem?_set_ne (Ne.symm hj)] at hq
      rw [callsOf_snoc_other (fun heq => hj (heq.symm.trans hc))]
      exact hn.counter j q hq
  fresh := by
    intro j hle
    rw [List.length_set] at hle
    have hlt : i < h.processes.length := (List.getElem?_eq_some_iff.mp hp).1
    rw [callsOf_snoc_other (by omega)]
    exact hn.fresh j hle
  numbers := by
    intro j
    by_cases hj : c.process = j
    · rw [callsOf_snoc_self hj, List.map_append, hn.numbers j, List.length_append, List.length_singleton,
        List.range_succ, List.map_append]
      simp [hsequence, hn.counter i p hp, ← hj, hc]
    · rw [callsOf_snoc_other hj]
      exact hn.numbers j

theorem Host.running_eq_some {p : Process} (hp : h.running i = some p) : h.processes[i]? = some p :=
  (Option.filter_eq_some_iff.mp hp).1

theorem Numbered.step (hn : Numbered cs h) (e : HostEvent) : Numbered (cs ++ h.emit e) (h.step e) := by
  cases e with
  | start pid =>
      simp only [Host.emit, List.append_nil, Host.step]
      split
      · exact hn
      · exact hn.start pid
  | exit process =>
      simp only [Host.emit, List.append_nil]
      exact hn.exit process
  | claim process now request =>
      cases hp : h.running process with
      | none =>
          simp only [Host.emit, Host.step, hp, List.append_nil]
          exact hn
      | some p =>
          cases now with
          | none =>
              simp only [Host.emit, Host.step, hp, List.append_nil]
              exact hn
          | some now =>
              simp only [Host.emit, Host.step, hp]
              exact hn.claim (Host.running_eq_some hp) rfl rfl

theorem numbered_calls (es : List HostEvent) : Numbered (calls es) (hostAfter es) :=
  run_invariant
    { counter := by
        intro i p hp
        cases hp
      fresh := fun _ _ => rfl
      numbers := fun _ => rfl }
    (fun _ _ e hn => hn.step e) es

/-- Two calls of one process have different numbers. -/
theorem sequence_ne (hfits : CounterFits es) :
    (calls es).Pairwise fun c c' => c.process = c'.process → c.sequence ≠ c'.sequence := by
  have hnodup : ∀ i, ((callsOf i (calls es)).map (·.sequence)).Nodup := by
    intro i
    rw [(numbered_calls es).numbers i]
    apply List.Nodup.map_on _ List.nodup_range
    intro a ha b hb heq
    have hlength := hfits i
    rw [List.mem_range] at ha hb
    have hnat := congrArg BitVec.toNat heq
    rwa [BitVec.toNat_ofNat, BitVec.toNat_ofNat, Nat.mod_eq_of_lt (by omega), Nat.mod_eq_of_lt (by omega)] at hnat
  generalize calls es = cs at hnodup
  induction cs with
  | nil => exact List.Pairwise.nil
  | cons c cs ih =>
      rw [List.pairwise_cons]
      constructor
      · intro c' hc' hprocess
        have hmine := hnodup c.process
        rw [callsOf, List.filter_cons_of_pos (by simp), List.map_cons, List.nodup_cons] at hmine
        intro hsequence
        apply hmine.1
        rw [hsequence]
        exact List.mem_map_of_mem (List.mem_filter.mpr ⟨hc', by simp [hprocess]⟩)
      · apply ih
        intro i
        exact (((List.sublist_cons_self c cs).filter _).map _).nodup (hnodup i)

/-! ## The tokens -/

theorem tokens_nodup_iff : (cs.map Call.token).Nodup ↔ cs.Pairwise fun c c' =>
    ¬(c.pid = c'.pid ∧ c.now.nsec = c'.now.nsec ∧ c.sequence = c'.sequence) := by
  rw [List.Nodup, List.pairwise_map]
  apply List.Pairwise.iff
  intro c c'
  rw [Call.token_eq, Call.token_eq, ne_eq, Call.format_inj]

/-- The transactions of the calls bring their tokens to the queue. -/
theorem claimTokens_calls (cs : List Call) : claimTokens (cs.map Call.action) = cs.map Call.token := by
  induction cs with
  | nil => rfl
  | cons c cs ih =>
      rw [List.map_cons, List.map_cons, ← ih]
      rfl

/-- The calls of a run have tokens of their own exactly if no two processes of one number have read the same
nanoseconds at calls of the same number. -/
theorem claim_tokens_unique_iff (es : List HostEvent) (hfits : CounterFits es) :
    ((claimTokens ((calls es).map Call.action)).Nodup ↔ (calls es).Pairwise fun c c' =>
      c.process ≠ c'.process → c.pid = c'.pid → c.sequence = c'.sequence → c.now.nsec ≠ c'.now.nsec) ∧
    ∀ c ∈ calls es, c.token = c.format ∧ c.jobToken = c.format := by
  constructor
  · rw [claimTokens_calls, tokens_nodup_iff]
    have hsequence := sequence_ne hfits
    constructor
    · intro hall
      apply hall.imp
      intro c c' hne _ hpid hseq hnsec
      exact hne ⟨hpid, hnsec, hseq⟩
    · intro hall
      apply (hall.and hsequence).imp
      intro c c' hboth heq
      obtain ⟨hpid, hnsec, hseq⟩ := heq
      by_cases hprocess : c.process = c'.process
      · exact hboth.2 hprocess hseq
      · exact hboth.1 hprocess hpid hseq hnsec
  · intro c _
    exact ⟨c.token_eq, c.jobToken_eq⟩

/-- A grader that is started again with its old number, two seconds after its first claim. -/
def restart : List HostEvent :=
  let pid : Pid := ⟨7, by decide, by decide⟩
  let request : ClaimCall := { token := [], expiryNow := 0, claimNow := 0 }
  [.start pid, .claim 0 (some ⟨1, 500, by decide⟩) request, .exit 0,
    .start pid, .claim 1 (some ⟨3, 500, by decide⟩) request]

theorem claim_tokens_unique_sample : (claimTokens ((calls (restart.take 2)).map Call.action)).Nodup := by
  have hfits : CounterFits (restart.take 2) := by
    intro process
    apply Nat.lt_of_le_of_lt (List.length_filter_le _ _)
    decide
  apply (claim_tokens_unique_iff _ hfits).1.mpr
  exact List.pairwise_singleton _ _

/-- The nanoseconds alone do not tell its two claims apart. -/
theorem restart_repeats_token : ¬∀ es, ClockIncreases es → CounterFits es →
    (claimTokens ((calls es).map Call.action)).Nodup := by
  intro h
  have hclock : ClockIncreases restart := by
    rw [ClockIncreases]
    decide
  have hfits : CounterFits restart := by
    intro process
    apply Nat.lt_of_le_of_lt (List.length_filter_le _ _)
    decide
  have htokens : claimTokens ((calls restart).map Call.action) = ["7-500-0".toList, "7-500-0".toList] := by decide
  have hnodup := h restart hclock hfits
  rw [htokens] at hnodup
  simp at hnodup

end Tle.Queue.Tokens
