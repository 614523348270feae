import Mathlib.Data.List.Basic
import Tle.Lib.Scan

/-!
# The limit on anonymous submissions in `web.c`
-/

namespace Tle.Web
open Tle.Lib

/-- What `inet_ntop` can write into a buffer of `INET6_ADDRSTRLEN` bytes. -/
structure Address where
  text : Text
  nonempty : text ≠ []
  fits : text.length < 46

theorem Address.text_injective {a b : Address} (h : a.text = b.text) : a = b := by
  cases a
  cases b
  cases h
  rfl

instance : DecidableEq Address := fun a b =>
  decidable_of_iff (a.text = b.text) ⟨Address.text_injective, fun h => h ▸ rfl⟩

/-- `struct anonymous_rate_entry` -/
structure AnonymousRateEntry where
  address : Text := []
  lastSubmission : Int := 0

/-- The array `anonymous_rates`. -/
structure AnonymousRates where
  entries : List AnonymousRateEntry
  length_entries : entries.length = 256

namespace AnonymousRates

def empty : AnonymousRates := ⟨List.replicate 256 {}, List.length_replicate⟩

variable (rates : AnonymousRates)

def entry (i : Nat) : AnonymousRateEntry := rates.entries.getD i {}

def set (i : Nat) (e : AnonymousRateEntry) : AnonymousRates where
  entries := rates.entries.set i e
  length_entries := by rw [List.length_set, rates.length_entries]

end AnonymousRates

/-- The loop over the entries from index `i` on, with the slot found so far. -/
def slotFrom (address : Text) : List AnonymousRateEntry → Nat → Nat → Nat
  | [], _, slot => slot
  | e :: rest, i, slot =>
      if e.address = address then i
      else slotFrom address rest (i + 1) (if e.address = [] then i else slot)

def AnonymousRates.slot (rates : AnonymousRates) (address : Text) : Nat :=
  slotFrom address rates.entries 0 0

/-- A call at time `now`: the table after it, and whether the submission is allowed. -/
def anonymousSubmissionAllowed (now : Int) (address : Address) (rates : AnonymousRates) :
    AnonymousRates × Bool :=
  let slot := rates.slot address.text
  if (rates.entry slot).lastSubmission + 5 ≤ now then
    (rates.set slot { address := address.text.take 45, lastSubmission := now }, true)
  else (rates, false)

/-! ## The slot -/

/-- An entry of the address, else the last free entry, else the slot the search started with. -/
theorem slotFrom_cases (address : Text) (es : List AnonymousRateEntry) (i slot : Nat) :
    (∃ j e, es[j]? = some e ∧ e.address = address ∧ slotFrom address es i slot = i + j) ∨
    ((∀ e ∈ es, e.address ≠ address) ∧
      ((∃ j e, es[j]? = some e ∧ e.address = [] ∧ slotFrom address es i slot = i + j) ∨
        (∀ e ∈ es, e.address ≠ []) ∧ slotFrom address es i slot = slot)) := by
  induction es generalizing i slot with
  | nil => exact Or.inr ⟨by simp, Or.inr ⟨by simp, rfl⟩⟩
  | cons x es ih =>
      rw [slotFrom]
      by_cases hx : x.address = address
      · exact Or.inl ⟨0, x, rfl, hx, by rw [if_pos hx, Nat.add_zero]⟩
      · rw [if_neg hx]
        obtain ⟨j, e, hj, he, heq⟩ | ⟨hnot, ⟨j, e, hj, he, heq⟩ | ⟨htaken, heq⟩⟩ :=
          ih (i + 1) (if x.address = [] then i else slot)
        · exact Or.inl ⟨j + 1, e, hj, he, by omega⟩
        · exact Or.inr ⟨List.forall_mem_cons.mpr ⟨hx, hnot⟩, Or.inl ⟨j + 1, e, hj, he, by omega⟩⟩
        · refine Or.inr ⟨List.forall_mem_cons.mpr ⟨hx, hnot⟩, ?_⟩
          by_cases hfree : x.address = []
          · exact Or.inl ⟨0, x, rfl, hfree, by rw [heq, if_pos hfree, Nat.add_zero]⟩
          · exact Or.inr ⟨List.forall_mem_cons.mpr ⟨hfree, htaken⟩, by rw [heq, if_neg hfree]⟩

namespace AnonymousRates

variable {rates : AnonymousRates} {i : Nat} {e e' : AnonymousRateEntry}

def Has (rates : AnonymousRates) (address : Text) : Prop := ∃ e ∈ rates.entries, e.address = address

theorem entry_of_getElem? (h : rates.entries[i]? = some e) : rates.entry i = e := by
  rw [entry, List.getD_eq_getElem?_getD, h, Option.getD_some]

theorem getElem?_of_lt (h : i < 256) : rates.entries[i]? = some (rates.entry i) := by
  have hlt : i < rates.entries.length := by rwa [rates.length_entries]
  rw [entry, List.getD_eq_getElem?_getD, List.getElem?_eq_getElem hlt, Option.getD_some]

/-- The three kinds of slot that a call may use. -/
theorem slot_cases (rates : AnonymousRates) (address : Text) :
    rates.entries[rates.slot address]? = some (rates.entry (rates.slot address)) ∧
    ((rates.entry (rates.slot address)).address = address ∨
      ¬rates.Has address ∧ (rates.entry (rates.slot address)).address = [] ∨
      ¬rates.Has address ∧ ¬rates.Has [] ∧ rates.slot address = 0) := by
  have hnot {a : Text} (h : ∀ e ∈ rates.entries, e.address ≠ a) : ¬rates.Has a :=
    fun ⟨e, he, heq⟩ => h e he heq
  obtain ⟨j, e, hj, he, heq⟩ | ⟨hmiss, ⟨j, e, hj, he, heq⟩ | ⟨htaken, heq⟩⟩ :=
    slotFrom_cases address rates.entries 0 0
  · rw [Nat.zero_add] at heq
    rw [slot, heq, entry_of_getElem? hj]
    exact ⟨hj, Or.inl he⟩
  · rw [Nat.zero_add] at heq
    rw [slot, heq, entry_of_getElem? hj]
    exact ⟨hj, Or.inr (Or.inl ⟨hnot hmiss, he⟩)⟩
  · rw [slot, heq]
    exact ⟨getElem?_of_lt (by decide), Or.inr (Or.inr ⟨hnot hmiss, hnot htaken, rfl⟩)⟩

theorem mem_set (h : e' ∈ (rates.set i e).entries) : e' ∈ rates.entries ∨ e' = e :=
  List.mem_or_eq_of_mem_set h

end AnonymousRates

end Tle.Web
