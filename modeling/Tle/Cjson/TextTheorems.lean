import Tle.Cjson.Lemmas.ReadValues
import Tle.Cjson.SafetyTheorems

/-!
# The texts of JSON are read as what they stand for
-/

namespace Tle.Cjson
open Tle.Lib Tle.Lib.Comp Tle.Lib.JsonText

variable {input : Input} {s : ParseBuffer} {t spaces rest : Text} {json : Json}

theorem ends_skipUtf8Bom {Q : Unit → ParseBuffer → Prop} {c : Char} (hdrop : input.content.drop s.offset = c :: rest)
    (hc : c ≠ Char.ofNat 0xEF) (hQ : Q () s) : Ends (skipUtf8Bom input) s Q := by
  have hword : hasWord input.content [Char.ofNat 0xEF, Char.ofNat 0xBB, Char.ofNat 0xBF] s.offset = false :=
    hasWord_of_head hdrop (fun h => hc (Option.some.inj h).symm) (by simp)
  unfold skipUtf8Bom
  rw [Ends.bind_iff, ends_canAccess, Ends.ite_iff]
  constructor
  · intro _
    rw [Ends.bind_iff, ends_isAtWord, hword, if_neg Bool.false_ne_true, Ends.pure_iff]
    exact hQ
  · intro _
    rw [Ends.pure_iff]
    exact hQ

/-- The first byte of a text, with white space before it. -/
theorem text_head {n : Nat} (hvalue : Value 63 n t json) (hs : Spaces spaces) :
    ∃ c t', spaces ++ (t ++ rest) = c :: t' ∧ c ≠ Char.ofNat 0xEF := by
  cases spaces with
  | nil =>
      obtain ⟨c, t', rfl, -, -, hc⟩ := value_head hvalue
      exact ⟨c, _, rfl, hc⟩
  | cons c spaces =>
      refine ⟨c, _, rfl, ?_⟩
      rcases hs c List.mem_cons_self with rfl | rfl | rfl | rfl <;> decide

/-- A text with at most 1000 nested brackets and numerals of at most 63 characters, with any white space before it
and anything behind it that does not go on with a numeral, is read as what it stands for. An allocation that is
refused makes the call fail at worst; it never gives another value. -/
theorem parse_text (input : Input) (heap : Ledger) (hvalue : Value 63 nestingLimit t json) (hs : Spaces spaces)
    (hrest : Apart rest) (hcontent : input.content = spaces ++ (t ++ rest)) :
    Runs (cJSONParseWithLength input) (.start heap) fun r _ =>
      (r.item = none ∧ input.Refuses) ∨ ∃ item, r.item = some item ∧ item.json = json := by
  refine ((runs_cJSONParseWithLength heap).ends ?_).mono fun _ _ h => h.2
  obtain ⟨c, t', hhead, hc⟩ : ∃ c t', spaces ++ (t ++ rest) = c :: t' ∧ c ≠ Char.ofNat 0xEF := text_head hvalue hs
  have hne : input.content ≠ [] := by
    rw [hcontent, hhead]
    simp
  have hfailed (hrefuses : input.Refuses) (s : ParseBuffer) : Ends (failed input) s fun r _ =>
      (r.item = none ∧ input.Refuses) ∨ ∃ item, r.item = some item ∧ item.json = json := by
    simp only [failed, Ends.bind_iff, Ends.get_iff, Ends.pure_iff]
    exact Or.inl ⟨trivial, hrefuses⟩
  unfold cJSONParseWithLength
  rw [if_neg hne, Ends.bind_iff]
  refine ends_newItem (fun hrefuses heap' => hfailed hrefuses _) fun heap' b => ?_
  simp only [Ends.bind_iff]
  have hleft : input.content.drop (ParseBuffer.start heap).offset = spaces ++ (t ++ rest) := hcontent
  refine ends_skipUtf8Bom (hleft.trans hhead) hc ?_
  refine ends_skipBefore (s := { ParseBuffer.start heap with heap := heap' }) hleft hs hvalue ?_
  refine Ends.mono (ends_parseValue hvalue _ (drop_add hleft) hrest (by simp [ParseBuffer.start])) fun r s' hr => ?_
  rcases hr with ⟨rfl, hrefuses⟩ | ⟨item, rfl, hjson, -⟩
  · rw [Ends.bind_iff]
    exact fun _ s'' _ => hfailed hrefuses s''
  · exact Ends.pure_iff.mpr (Or.inr ⟨item, rfl, hjson⟩)

/-- `{"pk":12,"\u00e9":[true, "n"]}` -/
def aManifest : Text :=
  '{' :: ('"' :: 'p' :: 'k' :: '"' :: ':' :: '1' :: '2' :: ',' :: '"' :: '\\' :: 'u' :: '0' :: '0' :: 'e' :: '9' :: '"' ::
    ':' :: '[' :: 't' :: 'r' :: 'u' :: 'e' :: ',' :: ' ' :: '"' :: 'n' :: '"' :: ']' :: ['}'])

theorem aManifest_value : Value 63 nestingLimit aManifest (.object [(['p', 'k'], .number (strtod ['1', '2']).toRat),
    ([Char.ofNat 0xC3, Char.ofNat 0xA9], .array [.bool true, .string ['n']])]) := by
  have hpk : Literal ['p', 'k'] ['p', 'k'] :=
    .plain 'p' ['k'] ['k'] (by decide) (by decide) (by decide)
      (.plain 'k' [] [] (by decide) (by decide) (by decide) .nil)
  have he : Literal ['\\', 'u', '0', '0', 'e', '9'] [Char.ofNat 0xE9] :=
    .unit ['0', '0', 'e', '9'] (Char.ofNat 0xE9) [] [] (.intro '0' '0' 'e' '9' 0 0 14 9 rfl rfl rfl rfl) .nil
  have hn : Literal ['n'] ['n'] := .plain 'n' [] [] (by decide) (by decide) (by decide) .nil
  have hnumeral : Numeral ['1', '2'] :=
    .intro [] ['1', '2'] [] [] (Or.inl rfl) ⟨⟨by simp, by simp⟩, by simp⟩ .none .none
  have harray : Value 63 999 ['[', 't', 'r', 'u', 'e', ',', ' ', '"', 'n', '"', ']']
      (.array [.bool true, .string ['n']]) := by
    refine Value.array 998 ⟨[], ['t', 'r', 'u', 'e'], [], .bool true⟩
      [⟨[' '], ['"', 'n', '"'], [], .string ['n']⟩] ?_ ?_
    · intro e he
      simp only [List.mem_cons, List.not_mem_nil, or_false] at he
      rcases he with rfl | rfl
      · exact ⟨by simp [Spaces], by simp [Spaces]⟩
      · exact ⟨by simp [Spaces], by simp [Spaces]⟩
    · intro e he
      simp only [List.mem_cons, List.not_mem_nil, or_false] at he
      rcases he with rfl | rfl
      · exact .true _
      · exact .string _ _ _ hn
  refine Value.object 999 ⟨[], ['p', 'k'], ['p', 'k'], [], ⟨[], ['1', '2'], [], .number (strtod ['1', '2']).toRat⟩⟩
    [⟨[], ['\\', 'u', '0', '0', 'e', '9'], [Char.ofNat 0xE9], [],
      ⟨[], ['[', 't', 'r', 'u', 'e', ',', ' ', '"', 'n', '"', ']'], [], .array [.bool true, .string ['n']]⟩⟩] ?_ ?_
  · intro m hm
    simp only [List.mem_cons, List.not_mem_nil, or_false] at hm
    rcases hm with rfl | rfl
    · exact ⟨by simp [Spaces], by simp [Spaces], hpk, ⟨by simp [Spaces], by simp [Spaces]⟩⟩
    · exact ⟨by simp [Spaces], by simp [Spaces], he, ⟨by simp [Spaces], by simp [Spaces]⟩⟩
  · intro m hm
    simp only [List.mem_cons, List.not_mem_nil, or_false] at hm
    rcases hm with rfl | rfl
    · exact .number _ _ hnumeral (by decide)
    · exact harray

/-- White space around it, and no allocation refused. -/
theorem parse_text_manifest :
    Runs (cJSONParseWithLength ⟨['\n'] ++ (aManifest ++ ['\n']), fun _ => true⟩) (.start .empty) fun r _ =>
      ∃ item, r.item = some item ∧ item.json = .object [(['p', 'k'], .number (strtod ['1', '2']).toRat),
        ([Char.ofNat 0xC3, Char.ofNat 0xA9], .array [.bool true, .string ['n']])] := by
  refine (parse_text _ .empty aManifest_value (by simp [Spaces]) (apart_cons (by decide)) rfl).mono fun r s h => ?_
  rcases h with ⟨-, n, hrefuses⟩ | hread
  · cases hrefuses
  · exact hread

end Tle.Cjson
