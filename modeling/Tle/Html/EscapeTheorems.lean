import Tle.Html.Page
import Tle.Lib.Escape

/-!
# Escaped text can be read back
-/

namespace Tle.Html
open Tle.Lib

/-- `html_escape_text(out, text)`, the loop that appends to `out`. -/
def appendEscaped (out : Text) : Option Text → Text
  | none => out
  | some text => (cstr text).foldl (fun out c => out ++ escapeChar c) out

/-- The references that the loop writes. -/
def entities : Escape Char where
  mark := '&'
  table := [("amp;".toList, '&'), ("lt;".toList, '<'), ("gt;".toList, '>'), ("quot;".toList, '"'),
    ("#x27;".toList, '\'')]
  mark_escaped := ⟨("amp;".toList, '&'), List.mem_cons_self, rfl⟩
  tails_free := by decide
  not_mem_tail := by decide

theorem escapeChar_eq (c : Char) : escapeChar c = entities.encode c := by
  have hall : ∀ e ∈ entities.table, escapeChar e.2 = entities.mark :: e.1 := by decide
  obtain ⟨e, he, hletter, hencode⟩ | ⟨hnone, hencode⟩ := entities.encode_cases c
  · rw [hencode, ← hletter]
    exact hall e he
  · have hother : ∀ d : Char, (∃ e ∈ entities.table, e.2 = d) → c ≠ d := by
      rintro d ⟨e, he, hd⟩ heq
      exact hnone e he (hd.trans heq.symm)
    rw [hencode]
    unfold escapeChar
    split
    · exact absurd rfl (hother '&' (by decide))
    · exact absurd rfl (hother '<' (by decide))
    · exact absurd rfl (hother '>' (by decide))
    · exact absurd rfl (hother '"' (by decide))
    · exact absurd rfl (hother '\'' (by decide))
    · rfl

theorem htmlEscapeText_eq (s : Text) : htmlEscapeText s = (cstr s).flatMap entities.encode := by
  rw [htmlEscapeText]
  congr 1
  funext c
  exact escapeChar_eq c

theorem htmlEscapeText_inj {s t : Text} : htmlEscapeText s = htmlEscapeText t ↔ cstr s = cstr t := by
  rw [htmlEscapeText_eq, htmlEscapeText_eq]
  exact entities.encode_injective.eq_iff

theorem appendEscaped_eq (out s : Text) : appendEscaped out (some s) = out ++ htmlEscapeText s := by
  rw [appendEscaped, htmlEscapeText]
  induction cstr s generalizing out with
  | nil => simp
  | cons c s ih => rw [List.foldl_cons, ih, List.flatMap_cons, List.append_assoc]

/-- The text of a C string. -/
structure CText where
  text : Text
  nul : '\x00' ∉ text

/-- What is appended has no markup and none but the five references, and says what the text was. -/
theorem html_escape_text_spec (out : Text) (s t : CText) :
    appendEscaped out (some s.text) = out ++ htmlEscapeText s.text ∧
    (∀ c ∈ htmlEscapeText s.text, c ≠ '<' ∧ c ≠ '>' ∧ c ≠ '"' ∧ c ≠ '\'') ∧
    (∀ u v, htmlEscapeText s.text = u ++ '&' :: v →
      ∃ e ∈ ["&amp;", "&lt;", "&gt;", "&quot;", "&#x27;"], e.toList <+: '&' :: v) ∧
    entities.decode (htmlEscapeText s.text) = s.text ∧
    (htmlEscapeText s.text = htmlEscapeText t.text → s.text = t.text) ∧
    htmlEscapeText (s.text ++ t.text) = htmlEscapeText s.text ++ htmlEscapeText t.text := by
  have hs : cstr s.text = s.text := cstr_eq_self.mpr s.nul
  have ht : cstr t.text = t.text := cstr_eq_self.mpr t.nul
  have hst : cstr (s.text ++ t.text) = s.text ++ t.text := by rw [cstr_append_of_not_mem s.nul, ht]
  refine ⟨appendEscaped_eq out s.text, ?_, ?_, ?_, ?_, ?_⟩
  · intro c hc
    rw [htmlEscapeText_eq] at hc
    have hmark : ∀ e ∈ entities.table, e.2 = c → c = '&' := fun e he => Escape.eq_mark_of_mem hc he
    have hne : ∀ d : Char, (∃ e ∈ entities.table, e.2 = d) → d ≠ '&' → c ≠ d := by
      rintro d ⟨e, he, hd⟩ hamp heq
      exact hamp (heq ▸ hmark e he (hd.trans heq.symm))
    exact ⟨hne '<' (by decide) (by decide), hne '>' (by decide) (by decide), hne '"' (by decide) (by decide),
      hne '\'' (by decide) (by decide)⟩
  · intro u v h
    rw [htmlEscapeText_eq] at h
    obtain ⟨e, he, htail⟩ := Escape.tail_of_mark h
    have hall : ∀ e ∈ entities.table,
        ∃ name ∈ ["&amp;", "&lt;", "&gt;", "&quot;", "&#x27;"], name.toList = '&' :: e.1 := by decide
    obtain ⟨name, hname, heq⟩ := hall e he
    exact ⟨name, hname, heq ▸ List.cons_prefix_cons.mpr ⟨rfl, htail⟩⟩
  · rw [htmlEscapeText_eq, hs, Escape.decode_encode]
  · intro heq
    rw [htmlEscapeText_inj, hs, ht] at heq
    exact heq
  · rw [htmlEscapeText, hst, List.flatMap_append, htmlEscapeText, htmlEscapeText, hs, ht]

end Tle.Html
