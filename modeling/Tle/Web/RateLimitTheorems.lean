import Mathlib.Data.List.Nodup
import Mathlib.Data.List.Perm.Subperm
import Tle.Lib.Cooldown
import Tle.Web.RateLimit

/-!
# What the table of 256 entries limits

The calls of `anonymous_submission_allowed` come one after the other, each with an address and a time.
-/

namespace Tle.Web
open Tle.Lib Tle.Lib.Cooldown

namespace AnonymousRates

variable {rates : AnonymousRates} {calls allowed : List (Address × Int)} {c : Address × Int}

def step (rates : AnonymousRates) (c : Address × Int) : AnonymousRates :=
  (anonymousSubmissionAllowed c.2 c.1 rates).1

def allows (rates : AnonymousRates) (c : Address × Int) : Bool :=
  (anonymousSubmissionAllowed c.2 c.1 rates).2

def emit (rates : AnonymousRates) (c : Address × Int) : List (Address × Int) :=
  if rates.allows c then [c] else []

def after (calls : List (Address × Int)) : AnonymousRates := run step empty calls

/-- The calls that are allowed. -/
def allowedOf (calls : List (Address × Int)) : List (Address × Int) := history step emit empty calls

/-- Times do not decrease, and the first one is at least 5. -/
structure Timely (calls : List (Address × Int)) : Prop where
  ordered : calls.Pairwise fun c c' => c.2 ≤ c'.2
  late : ∀ c ∈ calls, 5 ≤ c.2

theorem Timely.sublist {calls' : List (Address × Int)} (h : Timely calls) (hsub : calls'.Sublist calls) :
    Timely calls' :=
  ⟨h.ordered.sublist hsub, fun c hc => h.late c (hsub.subset hc)⟩

theorem Timely.last (h : Timely (calls ++ [c])) : 5 ≤ c.2 ∧ ∀ c' ∈ calls, c'.2 ≤ c.2 := by
  refine ⟨h.late c (by simp), fun c' hc' => ?_⟩
  exact (List.pairwise_append.mp h.ordered).2.2 c' hc' c (List.mem_singleton_self c)

theorem Timely.init (h : Timely (calls ++ [c])) : Timely calls :=
  h.sublist (List.sublist_append_left calls [c])

theorem Timely.pre (h : Timely calls) {pre : List (Address × Int)} (hpre : pre <+: calls) : Timely pre :=
  h.sublist hpre.sublist

def Occupies (rates : AnonymousRates) (address : Text) (i : Nat) : Prop :=
  ∃ e, rates.entries[i]? = some e ∧ e.address = address

/-- What the table knows of the calls so far: an address has one entry, with the time of an allowed call of
it, and an allowed call without an entry lies 5 seconds back. -/
structure Tracks (calls allowed : List (Address × Int)) (rates : AnonymousRates) : Prop where
  distinct : ∀ address ≠ [], ∀ i j, rates.Occupies address i → rates.Occupies address j → i = j
  blank : ∀ e ∈ rates.entries, e.address = [] → e.lastSubmission = 0
  recorded : ∀ e ∈ rates.entries, e.address ≠ [] →
    ∃ c ∈ allowed, e.address = c.1.text ∧ e.lastSubmission = c.2
  kept : ∀ c ∈ allowed, (∃ e ∈ rates.entries, e.address = c.1.text ∧ c.2 ≤ e.lastSubmission) ∨
    ∃ c' ∈ calls, c.2 + 5 ≤ c'.2

/-- The address has no entry, none is free, and the first entry is not 5 seconds old. -/
def Crowded (rates : AnonymousRates) (c : Address × Int) : Prop :=
  ¬rates.Has c.1.text ∧ ¬rates.Has [] ∧ c.2 < (rates.entry 0).lastSubmission + 5

/-! ## One call -/

theorem allows_iff_slot : rates.allows c = true ↔
    (rates.entry (rates.slot c.1.text)).lastSubmission + 5 ≤ c.2 := by
  rw [allows, anonymousSubmissionAllowed]
  split <;> simp [*]

theorem step_of_allows (h : rates.allows c = true) : rates.step c =
    rates.set (rates.slot c.1.text) { address := c.1.text, lastSubmission := c.2 } := by
  have htake : c.1.text.take 45 = c.1.text := List.take_of_length_le (by have := c.1.fits; omega)
  simp only [step, anonymousSubmissionAllowed, if_pos (allows_iff_slot.mp h), htake]

theorem step_of_not_allows (h : ¬rates.allows c = true) : rates.step c = rates := by
  simp only [step, anonymousSubmissionAllowed, if_neg (mt allows_iff_slot.mpr h)]

theorem entry_set_slot (rates : AnonymousRates) (address : Text) (e : AnonymousRateEntry) (i : Nat) :
    (rates.set (rates.slot address) e).entries[i]? =
      if rates.slot address = i then some e else rates.entries[i]? := by
  have hlt := (List.getElem?_eq_some_iff.mp (rates.slot_cases address).1).1
  simp only [set, List.getElem?_set, hlt, ↓reduceIte]

namespace Tracks

theorem empty : Tracks [] [] AnonymousRates.empty where
  distinct address hne i j hi := by
    obtain ⟨e, he, heq⟩ := hi
    have hblank := List.eq_of_mem_replicate (List.mem_of_getElem? he)
    subst hblank
    exact absurd heq.symm hne
  blank e he _ := by rw [List.eq_of_mem_replicate he]
  recorded e he hne := by
    rw [List.eq_of_mem_replicate he] at hne
    exact absurd rfl hne
  kept c hc := by cases hc

/-- An allowed call of an address that has an entry is not younger than the entry says. -/
theorem le_of_occupies (h : Tracks calls allowed rates) {c : Address × Int} (hc : c ∈ allowed) {i : Nat}
    {e : AnonymousRateEntry} (hi : rates.entries[i]? = some e) (he : e.address = c.1.text) :
    c.2 ≤ e.lastSubmission ∨ ∃ c' ∈ calls, c.2 + 5 ≤ c'.2 := by
  obtain ⟨e', he', heq, hle⟩ | hlong := h.kept c hc
  · obtain ⟨j, hj⟩ := List.mem_iff_getElem?.mp he'
    have hsame := h.distinct c.1.text c.1.nonempty i j ⟨e, hi, he⟩ ⟨e', hj, heq⟩
    rw [← hsame, hi] at hj
    cases hj
    exact Or.inl hle
  · exact Or.inr hlong

/-- An address without an entry has had no call allowed for 5 seconds. -/
theorem rested_of_not_has (h : Tracks calls allowed rates) (ht : Timely (calls ++ [c]))
    (hhas : ¬rates.Has c.1.text) : Rested 5 allowed c.1 c.2 := by
  intro c₀ hc₀ haddress
  obtain ⟨e, he, heq, -⟩ | ⟨c', hc', hle⟩ := h.kept c₀ hc₀
  · exact absurd ⟨e, he, haddress ▸ heq⟩ hhas
  · exact hle.trans (ht.last.2 c' hc')

theorem allows_iff (h : Tracks calls allowed rates) (ht : Timely (calls ++ [c])) :
    rates.allows c = true ↔ Rested 5 allowed c.1 c.2 ∧ ¬rates.Crowded c := by
  obtain ⟨hslot, hkind⟩ := rates.slot_cases c.1.text
  have hmem := List.mem_of_getElem? hslot
  rw [allows_iff_slot]
  obtain hown | ⟨hhas, hfree⟩ | ⟨hhas, hfull, hzero⟩ := hkind
  -- the address has the entry
  · have hcrowded : ¬rates.Crowded c := fun hcrowded => hcrowded.1 ⟨_, hmem, hown⟩
    rw [and_iff_left hcrowded]
    constructor
    · intro hlast c₀ hc₀ haddress
      obtain hle | ⟨c', hc', hle⟩ := h.le_of_occupies hc₀ hslot (hown.trans (congrArg _ haddress.symm))
      · omega
      · exact hle.trans (ht.last.2 c' hc')
    · intro hrested
      obtain ⟨c₀, hc₀, haddress, hlast⟩ := h.recorded _ hmem (fun hempty => c.1.nonempty (hown.symm.trans hempty))
      rw [hlast]
      exact hrested c₀ hc₀ (Address.text_injective (haddress.symm.trans hown))
  -- the entry is free
  · have hcrowded : ¬rates.Crowded c := fun hcrowded => hcrowded.2.1 ⟨_, hmem, hfree⟩
    have hlate := ht.last.1
    rw [h.blank _ hmem hfree]
    exact iff_of_true (by omega) ⟨h.rested_of_not_has ht hhas, hcrowded⟩
  -- it is the first entry, of another address
  · rw [and_iff_right (h.rested_of_not_has ht hhas), hzero]
    constructor
    · exact fun hlast hcrowded => absurd hcrowded.2.2 (not_lt.mpr hlast)
    · exact fun hcrowded => not_lt.mp fun hlt => hcrowded ⟨hhas, hfull, hlt⟩

/-- An entry of the address of the call is the slot of the call. -/
theorem slot_of_occupies (h : Tracks calls allowed rates) {i : Nat} (hi : rates.Occupies c.1.text i) :
    rates.slot c.1.text = i := by
  obtain ⟨hslot, hown | ⟨hhas, -⟩ | ⟨hhas, -⟩⟩ := rates.slot_cases c.1.text
  · exact h.distinct _ c.1.nonempty _ _ ⟨_, hslot, hown⟩ hi
  all_goals
    obtain ⟨e, he, heq⟩ := hi
    exact absurd ⟨e, List.mem_of_getElem? he, heq⟩ hhas

theorem step_allowed (h : Tracks calls allowed rates) (hallows : rates.allows c = true) :
    Tracks (calls ++ [c]) (allowed ++ [c]) (rates.step c) := by
  rw [step_of_allows hallows]
  have hlast := allows_iff_slot.mp hallows
  refine ⟨?_, ?_, ?_, ?_⟩
  · rintro address hne i j ⟨e, he, heq⟩ ⟨e', he', heq'⟩
    rw [entry_set_slot] at he he'
    split_ifs at he he' with hi hj hj
    · exact hi.symm.trans hj
    · cases he
      cases heq
      exact hi.symm.trans (h.slot_of_occupies ⟨e', he', heq'⟩)
    · cases he'
      cases heq'
      exact (h.slot_of_occupies ⟨e, he, heq⟩).symm.trans hj
    · exact h.distinct address hne i j ⟨e, he, heq⟩ ⟨e', he', heq'⟩
  · intro e he hempty
    obtain hold | rfl := mem_set he
    · exact h.blank e hold hempty
    · exact absurd hempty c.1.nonempty
  · intro e he hne
    obtain hold | rfl := mem_set he
    · obtain ⟨c₀, hc₀, heq⟩ := h.recorded e hold hne
      exact ⟨c₀, List.mem_append_left _ hc₀, heq⟩
    · exact ⟨c, by simp, rfl, rfl⟩
  · intro c₀ hc₀
    rcases List.mem_append.mp hc₀ with hc₀ | hc₀
    · obtain ⟨e, he, heq, hle⟩ | ⟨c', hc', hle⟩ := h.kept c₀ hc₀
      · obtain ⟨i, hi⟩ := List.mem_iff_getElem?.mp he
        by_cases hslot : rates.slot c.1.text = i
        -- the entry is overwritten
        · rw [← hslot, (rates.slot_cases c.1.text).1] at hi
          cases hi
          exact Or.inr ⟨c, by simp, by omega⟩
        · have hi' := entry_set_slot rates c.1.text { address := c.1.text, lastSubmission := c.2 } i
          rw [if_neg hslot, hi] at hi'
          exact Or.inl ⟨e, List.mem_of_getElem? hi', heq, hle⟩
      · exact Or.inr ⟨c', List.mem_append_left _ hc', hle⟩
    · cases List.mem_singleton.mp hc₀
      have hnew := entry_set_slot rates c.1.text { address := c.1.text, lastSubmission := c.2 }
        (rates.slot c.1.text)
      rw [if_pos rfl] at hnew
      exact Or.inl ⟨_, List.mem_of_getElem? hnew, rfl, le_refl _⟩

theorem step (h : Tracks calls allowed rates) :
    Tracks (calls ++ [c]) (allowed ++ rates.emit c) (rates.step c) := by
  by_cases hallows : rates.allows c = true
  · rw [emit, if_pos hallows]
    exact h.step_allowed hallows
  · rw [emit, if_neg hallows, List.append_nil, step_of_not_allows hallows]
    refine ⟨h.distinct, h.blank, h.recorded, fun c₀ hc₀ => ?_⟩
    obtain hentry | ⟨c', hc', hle⟩ := h.kept c₀ hc₀
    · exact Or.inl hentry
    · exact Or.inr ⟨c', List.mem_append_left _ hc', hle⟩

end Tracks

/-! ## Any number of calls -/

theorem after_snoc (calls : List (Address × Int)) (c : Address × Int) :
    after (calls ++ [c]) = (after calls).step c := run_snoc calls c

theorem allowedOf_snoc (calls : List (Address × Int)) (c : Address × Int) :
    allowedOf (calls ++ [c]) = allowedOf calls ++ (after calls).emit c := history_snoc calls c

theorem tracks (calls : List (Address × Int)) : Tracks calls (allowedOf calls) (after calls) := by
  induction calls using List.reverseRecOn with
  | nil => exact Tracks.empty
  | append_singleton calls c ih =>
      rw [after_snoc, allowedOf_snoc]
      exact ih.step

theorem allows_after_iff (ht : Timely (calls ++ [c])) : (after calls).allows c = true ↔
    Rested 5 (allowedOf calls) c.1 c.2 ∧ ¬(after calls).Crowded c :=
  (tracks calls).allows_iff ht

theorem spaced_allowedOf (ht : Timely calls) : Spaced 5 (allowedOf calls) := by
  induction calls using List.reverseRecOn with
  | nil => exact List.Pairwise.nil
  | append_singleton calls c ih =>
      rw [allowedOf_snoc, emit]
      split_ifs with hallows
      · exact spaced_snoc.mpr ⟨ih ht.init, ((allows_after_iff ht).mp hallows).1⟩
      · rw [List.append_nil]
        exact ih ht.init

/-- No address is allowed twice within less than 5 seconds, and none ever has two entries. -/
theorem limits_each_address (ht : Timely calls) :
    (allowedOf calls).Pairwise (fun c c' => c.1 = c'.1 → c.2 + 5 ≤ c'.2) ∧
      ∀ pre, pre <+: calls → ∀ (address : Address) i j, (after pre).Occupies address.text i →
        (after pre).Occupies address.text j → i = j := by
  refine ⟨spaced_allowedOf ht, fun pre _ address i j hi hj => ?_⟩
  exact (tracks pre).distinct _ address.nonempty i j hi hj

/-- Hosts of one network. -/
def host (k : Fin 257) : Address where
  text := "fd00::".toList ++ formatUnsigned k
  nonempty := by simp
  fits := by
    have hdigits : (formatUnsigned k).length ≤ 3 :=
      (Nat.length_toDigits_le_iff (by decide) (by decide)).mpr (k.isLt.trans (by decide))
    rw [List.length_append]
    exact Nat.lt_of_le_of_lt (Nat.add_le_add_left hdigits 6) (by decide)

theorem limits_two_hosts : (allowedOf [(host 1, 5), (host 2, 6), (host 1, 9)]).Pairwise
      (fun c c' => c.1 = c'.1 → c.2 + 5 ≤ c'.2) ∧
    ∀ pre, pre <+: [(host 1, 5), (host 2, 6), (host 1, 9)] → ∀ (address : Address) i j,
      (after pre).Occupies address.text i → (after pre).Occupies address.text j → i = j :=
  limits_each_address ⟨by simp, by simp⟩

/-! ## One client and the others -/

/-- A call is allowed if the address has rested, and calls of other addresses make no difference. -/
structure Decoupled (calls : List (Address × Int)) (c : Address × Int) : Prop where
  rested : (∀ c' ∈ allowedOf calls, c'.1 = c.1 → c'.2 + 5 ≤ c.2) → (after calls).allows c = true
  alone : (after calls).allows c = (after (calls.filter (·.1 = c.1))).allows c

theorem mem_of_mem_allowedOf {c : Address × Int} (hc : c ∈ allowedOf calls) : c ∈ calls := by
  induction calls using List.reverseRecOn with
  | nil => exact hc
  | append_singleton calls c' ih =>
      rw [allowedOf_snoc, List.mem_append] at hc
      refine List.mem_append.mpr (hc.imp ih fun hc => ?_)
      unfold emit at hc
      split_ifs at hc
      · exact hc
      · cases hc

/-- A table that only one address has used still has a free entry. -/
theorem not_crowded_alone (h : ∀ c' ∈ calls, c'.1 = c.1) : ¬(after calls).Crowded c := by
  rintro ⟨hhas, hfull, -⟩
  have hfirst : (after calls).entry 0 ∈ (after calls).entries :=
    List.mem_of_getElem? (getElem?_of_lt (by decide))
  obtain ⟨c', hc', haddress, -⟩ := (tracks calls).recorded _ hfirst fun hempty => hfull ⟨_, hfirst, hempty⟩
  rw [h c' (mem_of_mem_allowedOf hc')] at haddress
  exact hhas ⟨_, hfirst, haddress⟩

/-- Without a crowded call the table grants what a limiter grants that remembers every address. -/
theorem allowedOf_eq_grantedOf (ht : Timely calls)
    (hfree : ∀ pre c, pre ++ [c] <+: calls → ¬(after pre).Crowded c) :
    allowedOf calls = grantedOf 5 calls := by
  induction calls using List.reverseRecOn with
  | nil => rfl
  | append_singleton calls c ih =>
      have heq := ih ht.init fun pre c' hpre => hfree pre c' (hpre.trans (List.prefix_append calls [c]))
      have hallows := allows_after_iff ht
      rw [and_iff_left (hfree calls c (List.prefix_refl _)), heq] at hallows
      rw [allowedOf_snoc, grantedOf_snoc, emit, grant, heq]
      by_cases hrested : Rested 5 (grantedOf 5 calls) c.1 c.2
      · rw [if_pos (hallows.mpr hrested), if_pos hrested]
      · rw [if_neg (mt hallows.mp hrested), if_neg hrested, List.append_nil]

theorem decoupled_of_not_crowded (ht : Timely (calls ++ [c]))
    (hfree : ∀ pre c', pre ++ [c'] <+: calls ++ [c] → ¬(after pre).Crowded c') : Decoupled calls c := by
  have hlast := hfree calls c (List.prefix_refl _)
  have hallows := allows_after_iff ht
  rw [and_iff_left hlast] at hallows
  refine ⟨hallows.mpr, ?_⟩
  have hmine : ∀ c' ∈ calls.filter (·.1 = c.1), c'.1 = c.1 := fun c' hc' => by
    simpa using (List.mem_filter.mp hc').2
  have hsub : (calls.filter (·.1 = c.1) ++ [c]).Sublist (calls ++ [c]) :=
    List.filter_sublist.append (List.Sublist.refl [c])
  have ht' := ht.sublist hsub
  have hallows' := allows_after_iff ht'
  rw [and_iff_left (not_crowded_alone hmine)] at hallows'
  have hall := allowedOf_eq_grantedOf ht.init fun pre c' hpre =>
    hfree pre c' (hpre.trans (List.prefix_append calls [c]))
  have hall' := allowedOf_eq_grantedOf ht'.init fun pre c' hpre => by
    have hc' := hmine c' (hpre.subset (by simp))
    exact not_crowded_alone fun c₀ hc₀ =>
      (hmine c₀ (hpre.subset (List.mem_append_left _ hc₀))).trans hc'.symm
  rw [Bool.eq_iff_iff, hallows, hallows', hall, hall', grantedOf_filter, rested_filter]

theorem not_crowded_of_decoupled (ht : Timely (calls ++ [c])) (h : Decoupled calls c) :
    ¬(after calls).Crowded c := by
  intro hcrowded
  have hrested := (tracks calls).rested_of_not_has ht hcrowded.1
  exact ((allows_after_iff ht).mp (h.rested hrested)).2 hcrowded

/-- The clients are decoupled in every call exactly if no call finds the table full of other addresses
with a first entry that is not 5 seconds old. -/
theorem decoupled_iff (ht : Timely calls) :
    (∀ pre c, pre ++ [c] <+: calls → Decoupled pre c) ↔
      ∀ pre c, pre ++ [c] <+: calls → ¬(after pre).Crowded c := by
  constructor
  · exact fun h pre c hpre => not_crowded_of_decoupled (ht.pre hpre) (h pre c hpre)
  · intro hfree pre c hpre
    exact decoupled_of_not_crowded (ht.pre hpre) fun pre' c' hpre' => hfree pre' c' (hpre'.trans hpre)

theorem decoupled_one_host : Decoupled [(host 1, 5)] (host 1, 7) := by
  have ht : Timely [(host 1, 5), (host 1, 7)] := ⟨by simp, by simp⟩
  refine (decoupled_iff ht).mpr (fun pre c hpre => ?_) [(host 1, 5)] (host 1, 7) (List.prefix_refl _)
  have hsame : ∀ c' ∈ pre ++ [c], c'.1 = host 1 := fun c' hc' => by
    have hmem := hpre.subset hc'
    rcases List.mem_pair.mp hmem with rfl | rfl <;> rfl
  exact not_crowded_alone fun c' hc' =>
    (hsame c' (List.mem_append_left _ hc')).trans (hsame c (by simp)).symm

theorem host_injective : Function.Injective (fun k => (host k).text) := by
  intro k k' h
  have hdigits : formatUnsigned k = formatUnsigned k' := List.append_cancel_left h
  have hvalue := congrArg (Nat.ofDigitChars 10 · 0) hdigits
  simp only [formatUnsigned, Nat.ofDigitChars_ten_toDigits] at hvalue
  exact Fin.ext hvalue

/-- One more client than entries, all within 5 seconds. -/
theorem not_decoupled : ¬∀ calls, Timely calls → ∀ pre c, pre ++ [c] <+: calls → Decoupled pre c := by
  intro h
  let calls := (List.finRange 257).map fun k => (host k, (5 : Int))
  have htexts : (calls.map (·.1.text)).Nodup := by
    rw [List.map_map]
    exact List.Nodup.map host_injective (List.nodup_finRange 257)
  have ht : Timely calls := by
    refine ⟨List.pairwise_map.mpr (List.pairwise_of_forall (fun _ _ => le_refl _)), fun c hc => ?_⟩
    obtain ⟨k, -, rfl⟩ := List.mem_map.mp hc
    exact le_refl _
  have hall (pre : List (Address × Int)) (hpre : pre <+: calls) : allowedOf pre = pre := by
    induction pre using List.reverseRecOn with
    | nil => rfl
    | append_singleton pre c ih =>
        have heq := ih ((List.prefix_append pre [c]).trans hpre)
        have hnodup := htexts.sublist (hpre.sublist.map (·.1.text))
        have hnew : ∀ c' ∈ allowedOf pre, c'.1 = c.1 → c'.2 + 5 ≤ c.2 := by
          intro c' hc' haddress
          rw [heq] at hc'
          rw [List.map_append, List.nodup_append] at hnodup
          have hmem : c.1.text ∈ pre.map (·.1.text) := List.mem_map.mpr ⟨c', hc', by rw [haddress]⟩
          exact absurd rfl (hnodup.2.2 _ hmem _ (List.mem_singleton_self c.1.text))
        rw [allowedOf_snoc, emit, if_pos ((h calls ht pre c hpre).rested hnew), heq]
  have hentries : calls.map (·.1.text) ⊆ (after calls).entries.map (·.address) := by
    intro text htext
    obtain ⟨c, hc, rfl⟩ := List.mem_map.mp htext
    obtain ⟨e, he, heq, -⟩ | ⟨c', hc', hle⟩ :=
      (tracks calls).kept c (by rwa [hall calls (List.prefix_refl _)])
    · exact List.mem_map.mpr ⟨e, he, heq⟩
    · obtain ⟨k, -, rfl⟩ := List.mem_map.mp hc
      obtain ⟨k', -, rfl⟩ := List.mem_map.mp hc'
      omega
  have hlength := (htexts.subperm hentries).length_le
  simp [calls, (after calls).length_entries] at hlength

end AnonymousRates

end Tle.Web
