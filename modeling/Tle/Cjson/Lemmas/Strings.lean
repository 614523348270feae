import Mathlib.Order.Interval.Finset.Nat
import Tle.Cjson.Lemmas.Memory

/-!
# The two passes of `parse_string`

The first pass counts the escapes of the literal, and the block of the output is that much shorter than the
literal. The second pass may take the bytes apart in another way: a `\u` with a digit that is none makes it jump into
the middle of an escape of the first pass, and it may even take the closing quote for an escaped one. It still does
not write beyond the block, since two escapes of the first pass never start next to each other.
-/

namespace Tle.Cjson
open Tle.Lib Tle.Lib.Comp

variable {input : Input} {s : ParseBuffer} {content : Text} {first last p j : Nat} {E : Finset Nat}

/-! ## The marks of the first pass -/

/-- Places between `first` and `last` where escapes start. -/
structure Marks (content : Text) (first last : Nat) (E : Finset Nat) : Prop where
  bounds : ∀ e ∈ E, first ≤ e ∧ e + 2 ≤ last
  backslash : ∀ e ∈ E, content[e]? = some '\\'
  apart : ∀ e ∈ E, e + 1 ∉ E

/-- How many escapes start before `p`. -/
def before (E : Finset Nat) (p : Nat) : Nat := (E.filter (· < p)).card

namespace Marks

theorem nil : Marks content first first ∅ := ⟨by simp, by simp, by simp⟩

theorem mono (h : Marks content first last E) (hle : last ≤ p) : Marks content first p E where
  bounds e he := by
    have hbounds := h.bounds e he
    omega
  backslash := h.backslash
  apart := h.apart

theorem insert (h : Marks content first last E) (hfirst : first ≤ last) (hc : content[last]? = some '\\') :
    Marks content first (last + 2) (insert last E) ∧ (Insert.insert last E).card = E.card + 1 := by
  have hnot : last ∉ E := fun hmem => by
    have hbounds := h.bounds last hmem
    omega
  refine ⟨⟨fun e he => ?_, fun e he => ?_, fun e he hnext => ?_⟩, Finset.card_insert_of_notMem hnot⟩
  · rcases Finset.mem_insert.mp he with rfl | he
    · omega
    · have hbounds := h.bounds e he
      omega
  · rcases Finset.mem_insert.mp he with rfl | he
    · exact hc
    · exact h.backslash e he
  · rcases Finset.mem_insert.mp he with rfl | he
    · rcases Finset.mem_insert.mp hnext with heq | hnext
      · omega
      · have hbounds := h.bounds _ hnext
        omega
    · rcases Finset.mem_insert.mp hnext with heq | hnext
      · have hbounds := h.bounds e he
        omega
      · exact h.apart e he hnext

theorem before_first (h : Marks content first last E) : before E first = 0 := by
  rw [before, Finset.card_eq_zero, Finset.filter_eq_empty_iff]
  intro e he
  have hbounds := h.bounds e he
  omega

/-- A byte that is no backslash starts no escape. -/
theorem before_succ (h : Marks content first last E) (hp : content[p]? ≠ some '\\') :
    before E (p + 1) = before E p := by
  unfold before
  congr 1
  refine Finset.filter_congr fun e he => ?_
  have hne : e ≠ p := fun heq => hp (heq ▸ h.backslash e he)
  omega

theorem before_add_two (h : Marks content first last E) : before E (p + 2) ≤ before E p + 1 := by
  have hsplit : E.filter (· < p + 2) ⊆ E.filter (· < p) ∪ E.filter (fun e => p ≤ e ∧ e < p + 2) := by
    intro e he
    simp only [Finset.mem_union, Finset.mem_filter] at he ⊢
    by_cases hlt : e < p
    · exact Or.inl ⟨he.1, hlt⟩
    · exact Or.inr ⟨he.1, by omega, he.2⟩
  have hone : (E.filter (fun e => p ≤ e ∧ e < p + 2)).card ≤ 1 := by
    refine Finset.card_le_one.mpr fun a ha b hb => ?_
    simp only [Finset.mem_filter] at ha hb
    by_contra hne
    -- the two would be neighbours
    have hnext : b = a + 1 ∨ a = b + 1 := by omega
    rcases hnext with rfl | rfl
    · exact h.apart a ha.1 hb.1
    · exact h.apart b hb.1 ha.1
  unfold before
  calc (E.filter (· < p + 2)).card
      ≤ (E.filter (· < p) ∪ E.filter (fun e => p ≤ e ∧ e < p + 2)).card := Finset.card_le_card hsplit
    _ ≤ (E.filter (· < p)).card + (E.filter (fun e => p ≤ e ∧ e < p + 2)).card := Finset.card_union_le _ _
    _ ≤ (E.filter (· < p)).card + 1 := Nat.add_le_add_left hone _

theorem before_add (h : Marks content first last E) (j : Nat) : before E (p + 2 * j) ≤ before E p + j := by
  induction j with
  | zero => exact le_refl _
  | succ j ih =>
      have hstep := h.before_add_two (p := p + 2 * j)
      have heq : p + 2 * (j + 1) = p + 2 * j + 2 := by omega
      rw [heq]
      omega

/-- The escapes from `p` on are at most as many as the bytes. -/
theorem card_le (h : Marks content first last E) (p : Nat) : E.card ≤ before E p + (last - p) := by
  have hsplit : E ⊆ E.filter (· < p) ∪ Finset.Ico p last := by
    intro e he
    have hbounds := h.bounds e he
    simp only [Finset.mem_union, Finset.mem_filter, Finset.mem_Ico]
    by_cases hlt : e < p
    · exact Or.inl ⟨he, hlt⟩
    · exact Or.inr (by omega)
  calc E.card ≤ (E.filter (· < p) ∪ Finset.Ico p last).card := Finset.card_le_card hsplit
    _ ≤ (E.filter (· < p)).card + (Finset.Ico p last).card := Finset.card_union_le _ _
    _ = before E p + (last - p) := by rw [Nat.card_Ico, before]

end Marks

/-- What the first pass comes to, if it does not fail. -/
structure Scanned (content : Text) (first : Nat) (r : Nat × Nat) : Prop where
  ge : first ≤ r.1
  le : r.1 ≤ content.length
  marks : ∃ E, Marks content first r.1 E ∧ E.card = r.2

theorem runs_scanLiteral (hfirst : first ≤ input.content.length) :
    Runs (loop (input.content.length + 1) (scanLiteral input) (first, 0)) s
      (fun r s' => s' = s ∧ ∀ q, r = some q → Scanned input.content first q) := by
  refine Runs.loop (I := fun q s' => s' = s ∧ Scanned input.content first q)
    (m := fun q _ => input.content.length - q.1) ?_ ⟨rfl, le_refl _, hfirst, ∅, .nil, rfl⟩ (by simp only; omega)
  intro q s' hq
  obtain ⟨rfl, hq⟩ := hq
  obtain ⟨E, hmarks, hcard⟩ := hq.marks
  have hge := hq.ge
  unfold scanLiteral
  rw [Runs.ite_iff]
  constructor
  · intro hlt
    rw [Runs.bind_iff, runs_contentAt]
    refine ⟨input.content[q.1], List.getElem?_eq_getElem hlt, ?_⟩
    rw [Runs.ite_iff, Runs.ite_iff, Runs.ite_iff]
    refine ⟨fun _ => ?_, fun _ => ⟨fun hc => ⟨fun _ => ?_, fun hin => ?_⟩, fun _ => ?_⟩⟩
    · rw [Runs.pure_iff]
      exact ⟨rfl, fun q' hq' => by cases hq'; exact hq⟩
    · rw [Runs.pure_iff]
      exact ⟨rfl, fun q' hq' => by cases hq'⟩
    · rw [Runs.pure_iff]
      have hbackslash : input.content[q.1]? = some '\\' := by rw [List.getElem?_eq_getElem hlt, hc]
      have hinsert := hmarks.insert hge hbackslash
      refine ⟨⟨rfl, by simp only; omega, by simp only; omega, _, hinsert.1, ?_⟩, by simp only; omega⟩
      rw [hinsert.2, hcard]
    · rw [Runs.pure_iff]
      exact ⟨⟨rfl, by simp only; omega, hlt, E, hmarks.mono (by simp only; omega), hcard⟩, by simp only; omega⟩
  · intro _
    rw [Runs.pure_iff]
    exact ⟨rfl, fun q' hq' => by cases hq'; exact hq⟩

/-! ## The literals of UTF-16 -/

theorem hexDigit_lt {c : Char} {d : Nat} (h : hexDigit c = some d) : d < 16 := by
  have hlt := (List.findIdx?_eq_some_iff_getElem.mp h).1
  exact hlt

theorem hexFrom_lt (h : Nat) (digits : Text) : hexFrom h digits < 16 ^ digits.length * (h + 1) := by
  induction digits generalizing h with
  | nil => simp [hexFrom]
  | cons c digits ih =>
      rw [hexFrom, List.length_cons, Nat.pow_succ, Nat.mul_assoc]
      cases hd : hexDigit c with
      | none => simp
      | some d =>
          have hlt := hexDigit_lt hd
          exact lt_of_lt_of_le (ih (16 * h + d)) (Nat.mul_le_mul_left _ (by omega))

theorem parseHex4_lt {digits : Text} (h : digits.length ≤ 4) : parseHex4 digits < 0x10000 := by
  have hlt := hexFrom_lt 0 digits
  have hpow : 16 ^ digits.length ≤ 16 ^ 4 := Nat.pow_le_pow_right (by decide) h
  rw [parseHex4]
  omega

theorem length_utf8From (position mark codepoint : Nat) (bytes : Text) :
    (utf8From position mark codepoint bytes).length = position + 1 + bytes.length := by
  induction position generalizing codepoint bytes with
  | zero =>
      simp only [utf8From, List.length_cons]
      omega
  | succ position ih =>
      rw [utf8From, ih, List.length_cons]
      omega

theorem length_encodeUtf8 {codepoint : Nat} {bytes : Text} (h : encodeUtf8 codepoint = some bytes) :
    bytes.length ≤ 4 ∧ (codepoint < 0x10000 → bytes.length ≤ 3) := by
  unfold encodeUtf8 at h
  split at h
  · cases h
    simp
  · split at h
    · cases h
      simp [length_utf8From]
    · split at h
      · cases h
        simp [length_utf8From]
      · split at h
        · rename_i hlarge _
          cases h
          simp only [length_utf8From, List.length_nil]
          exact ⟨le_refl _, fun hlt => absurd hlt hlarge⟩
        · cases h

/-- A literal of six bytes gives at most three, and one of twelve at most four. -/
theorem runs_utf16Literal (hlast : last ≤ input.content.length) :
    Runs (utf16LiteralToUtf8 input p last) s (fun r s' => s' = s ∧ ∀ q, r = some q →
      ∃ j, q.2 = 2 * j ∧ q.1.length ≤ j ∧ 0 < j ∧ p + 2 * j ≤ last) := by
  unfold utf16LiteralToUtf8
  rw [Runs.ite_iff]
  constructor
  · intro _
    rw [Runs.pure_iff]
    exact ⟨rfl, fun q hq => by cases hq⟩
  · intro hroom
    rw [Runs.bind_iff, runs_hexAt]
    refine ⟨by omega, ?_⟩
    rw [Runs.ite_iff, Runs.ite_iff]
    refine ⟨fun _ => ?_, fun _ => ⟨fun hhigh => ?_, fun _ => ?_⟩⟩
    · rw [Runs.pure_iff]
      exact ⟨rfl, fun q hq => by cases hq⟩
    · rw [Runs.ite_iff]
      constructor
      · intro _
        rw [Runs.pure_iff]
        exact ⟨rfl, fun q hq => by cases hq⟩
      · intro hroom'
        have hget (i : Nat) (hi : i < last) : ∃ c, input.content[i]? = some c :=
          ⟨_, List.getElem?_eq_getElem (hi.trans_le hlast)⟩
        obtain ⟨b, hb⟩ := hget (p + 6) (by omega)
        obtain ⟨b', hb'⟩ := hget (p + 7) (by omega)
        rw [Runs.bind_iff, runs_contentAt]
        refine ⟨b, hb, ?_⟩
        rw [Runs.ite_iff]
        constructor
        · intro _
          rw [Runs.pure_iff]
          exact ⟨rfl, fun q hq => by cases hq⟩
        · intro _
          rw [Runs.bind_iff, runs_contentAt]
          refine ⟨b', hb', ?_⟩
          rw [Runs.ite_iff]
          constructor
          · intro _
            rw [Runs.pure_iff]
            exact ⟨rfl, fun q hq => by cases hq⟩
          · intro _
            rw [Runs.bind_iff, runs_hexAt]
            refine ⟨by omega, ?_⟩
            rw [Runs.ite_iff]
            constructor
            · intro _
              rw [Runs.pure_iff]
              exact ⟨rfl, fun q hq => by cases hq⟩
            · intro _
              rw [Runs.pure_iff]
              refine ⟨rfl, fun q hq => ?_⟩
              obtain ⟨bytes, hbytes, rfl⟩ := Option.map_eq_some_iff.mp hq
              have hlength := (length_encodeUtf8 hbytes).1
              exact ⟨6, rfl, by simp only; omega, by decide, by omega⟩
    · rw [Runs.pure_iff]
      refine ⟨rfl, fun q hq => ?_⟩
      obtain ⟨bytes, hbytes, rfl⟩ := Option.map_eq_some_iff.mp hq
      have hlength := (length_encodeUtf8 hbytes).2 (parseHex4_lt (by simp))
      exact ⟨3, rfl, hlength, by decide, by omega⟩

/-! ## The second pass -/

/-- What is written up to `q.1` is as much shorter as escapes of the first pass start before. -/
structure Fitting (first last : Nat) (E : Finset Nat) (q : Nat × Text) : Prop where
  ge : first ≤ q.1
  le : q.1 ≤ last + 1
  short : q.2.length + before E q.1 ≤ q.1 - first

namespace Fitting

variable {output bytes : Text}

theorem plain (hmarks : Marks content first last E) (h : Fitting first last E (p, output)) (hp : p < last)
    (hc : content[p]? ≠ some '\\') (hbytes : bytes.length = 1) : Fitting first last E (p + 1, output ++ bytes) where
  ge := h.ge.trans (Nat.le_succ p)
  le := by
    simp only
    omega
  short := by
    have hshort := h.short
    have hge := h.ge
    simp only [hmarks.before_succ hc, List.length_append, hbytes] at hshort hge ⊢
    omega

/-- An escape of `2 * j` bytes covers at most `j` marks. -/
theorem escape (hmarks : Marks content first last E) (h : Fitting first last E (p, output)) (hp : p + 2 * j ≤ last + 1)
    (hbytes : bytes.length ≤ j) : Fitting first last E (p + 2 * j, output ++ bytes) where
  ge := h.ge.trans (Nat.le_add_right p _)
  le := hp
  short := by
    have hshort := h.short
    have hge := h.ge
    have hbefore := hmarks.before_add (p := p) j
    simp only [List.length_append] at hshort hge ⊢
    omega

/-- It fits into the block. -/
theorem fits (hmarks : Marks content first last E) (h : Fitting first last E (p, output)) :
    output.length ≤ last + 1 - first - E.card + 1 := by
  have hshort := h.short
  have hge := h.ge
  have hle := h.le
  have hcard := hmarks.card_le p
  have hall := hmarks.card_le first
  have hfirst := hmarks.before_first
  simp only at hshort hge hle
  omega

theorem done (hmarks : Marks content first last E) (h : Fitting first last E (p, output)) (hp : last ≤ p) :
    output.length + E.card ≤ last + 1 - first := by
  have hshort := h.short
  have hge := h.ge
  have hle := h.le
  have hcard := hmarks.card_le p
  simp only at hshort hge hle
  omega

end Fitting

/-- What the second pass comes to. -/
structure Unescaped (first last : Nat) (E : Finset Nat) (r : Nat × Option Text) : Prop where
  ge : first ≤ r.1
  failed : r.2 = none → r.1 < last
  output : ∀ out, r.2 = some out → out.length + E.card ≤ last + 1 - first

theorem runs_unescape {q : Nat × Text} (hmarks : Marks input.content first last E)
    (hlast : last < input.content.length) (hq : Fitting first last E q) :
    Runs (unescape input last (last + 1 - first - E.card + 1) q) s (Round.Holds
      (fun q s' => s' = s ∧ Fitting first last E q) (fun q _ => last - q.1) (last - q.1)
      (fun r s' => s' = s ∧ Unescaped first last E r)) := by
  obtain ⟨p, output⟩ := q
  have hge : first ≤ p := hq.ge
  unfold unescape
  rw [Runs.ite_iff]
  constructor
  · intro hp
    have hread (i : Nat) (hi : i ≤ last) : ∃ c, input.content[i]? = some c :=
      ⟨_, List.getElem?_eq_getElem (hi.trans_lt hlast)⟩
    obtain ⟨c, hget⟩ := hread p hp.le
    obtain ⟨e, hget'⟩ := hread (p + 1) hp
    have hstop (e : Nat) : Runs (pure (Round.done (p, none)) : Parse (Round (Nat × Text) (Nat × Option Text))) s
        (Round.Holds (fun q s' => s' = s ∧ Fitting first last E q) (fun q _ => last - q.1) e
          (fun r s' => s' = s ∧ Unescaped first last E r)) := by
      rw [Runs.pure_iff]
      exact ⟨rfl, hge, fun _ => hp, fun out hout => by cases hout⟩
    rw [Runs.bind_iff, runs_contentAt]
    refine ⟨c, hget, ?_⟩
    rw [Runs.ite_iff]
    constructor
    · intro hc
      have hplain : Fitting first last E (p + 1, output ++ [c]) :=
        hq.plain hmarks hp (by rw [hget]; simpa using hc) rfl
      rw [Runs.bind_iff, runs_write, Runs.pure_iff]
      refine ⟨?_, ⟨rfl, hplain⟩, by simp only; omega⟩
      rw [← List.length_append]
      exact hplain.fits hmarks
    · intro _
      rw [Runs.ite_iff]
      refine ⟨fun _ => hstop _, fun _ => ?_⟩
      rw [Runs.bind_iff, runs_contentAt]
      refine ⟨e, hget', ?_⟩
      rw [Runs.ite_iff]
      constructor
      · intro _
        rw [Runs.bind_iff]
        refine (runs_utf16Literal (p := p) hlast.le).mono fun r s' hr => ?_
        obtain ⟨rfl, hr⟩ := hr
        cases r with
        | none => exact hstop _
        | some r =>
            obtain ⟨bytes, n⟩ := r
            obtain ⟨j, hn, hbytes, hpos, hroom⟩ := hr _ rfl
            simp only at hn hbytes
            subst hn
            have hescape : Fitting first last E (p + 2 * j, output ++ bytes) := hq.escape hmarks (by omega) hbytes
            simp only
            rw [Runs.bind_iff, runs_write, Runs.pure_iff]
            refine ⟨?_, ⟨rfl, hescape⟩, by simp only; omega⟩
            rw [← List.length_append]
            exact hescape.fits hmarks
      · intro _
        cases simpleEscape e with
        | none => exact hstop _
        | some b =>
            have hescape : Fitting first last E (p + 2 * 1, output ++ [b]) := hq.escape hmarks (by omega) (le_refl _)
            simp only
            rw [Runs.bind_iff, runs_write, Runs.pure_iff]
            refine ⟨?_, ⟨rfl, hescape⟩, by simp only; omega⟩
            rw [← List.length_append]
            exact hescape.fits hmarks
  · intro hp
    rw [Runs.pure_iff]
    refine ⟨rfl, hge, (fun hnone => by cases hnone), fun out hout => ?_⟩
    cases hout
    exact hq.done hmarks (Nat.le_of_not_lt hp)

/-! ## The literal -/

variable {base : Multiset Nat} {item : Item}

/-- What `parse_string` comes to from `s`. -/
structure StringRead (input : Input) (s : ParseBuffer) (base : Multiset Nat) (item : Item) (r : Option Item)
    (s' : ParseBuffer) : Prop where
  depth : s'.depth = s.depth
  le : s'.offset ≤ input.content.length
  holds : s'.heap.Holds base (r.getD item).blocks
  read : ∀ item', r = some item' → ∃ str : Str, item' = { item with type := .string, valuestring := some str } ∧
    s.offset + 2 ≤ s'.offset ∧ s.offset + str.bytes.length + 1 ≤ s'.offset

theorem StringRead.failed {s' : ParseBuffer} (hdepth : s'.depth = s.depth) (hle : s'.offset ≤ input.content.length)
    (hholds : s'.heap.Holds base item.blocks) : StringRead input s base item none s' :=
  ⟨hdepth, hle, hholds, fun _ h => by cases h⟩

theorem blocks_valuestring (hvaluestring : item.valuestring = none) (type : ItemType) (str : Str) :
    ({ item with type := type, valuestring := some str } : Item).blocks = str.block :: item.blocks := by
  rw [Item.blocks_eq, Item.blocks_eq, hvaluestring]
  rfl

theorem runs_unescapeLiteral (hvaluestring : item.valuestring = none) (hheap : s.heap.Holds base item.blocks)
    (hmarks : Marks input.content (s.offset + 1) last E) (hfirst : s.offset + 1 ≤ last)
    (hlast : last < input.content.length) :
    Runs (unescapeLiteral input item s.offset last (last - s.offset - E.card)) s (StringRead input s base item) := by
  have hsize : last - s.offset - E.card = last + 1 - (s.offset + 1) - E.card := by omega
  unfold unescapeLiteral
  rw [Runs.bind_iff, runs_allocate]
  cases hok : input.allocates s.heap.count with
  | false =>
      simp only [Ledger.allocate, Bool.false_eq_true, ↓reduceIte, Runs.bind_iff, runs_setOffset, Runs.pure_iff]
      exact .failed rfl (by simp only; omega) hheap.refused
  | true =>
      have hnew := hheap.allocate
      simp only [Ledger.allocate, ↓reduceIte] at hnew ⊢
      rw [hsize, Runs.bind_iff]
      refine (Runs.loop (I := fun q s' => s' = _ ∧ Fitting (s.offset + 1) last E q) (m := fun q _ => last - q.1)
        (Q := fun r s' => s' = _ ∧ Unescaped (s.offset + 1) last E r)
        (fun q s' hq => by obtain ⟨rfl, hq⟩ := hq; exact runs_unescape hmarks hlast hq)
        ⟨rfl, le_refl _, by simp only; omega, by simp [hmarks.before_first]⟩ (by simp only; omega)).mono
        fun r s' hr => ?_
      obtain ⟨rfl, hr⟩ := hr
      obtain ⟨p, output⟩ := r
      cases output with
      | none =>
          have hp := hr.failed rfl
          simp only at hp ⊢
          rw [Runs.bind_iff]
          refine (runs_deallocate hnew).mono fun _ s' hs' => ?_
          simp only [Runs.bind_iff, runs_setOffset, Runs.pure_iff]
          exact .failed hs'.depth (by simp only; omega) hs'.holds
      | some output =>
          have hout := hr.output output rfl
          have hcard := hmarks.card_le (s.offset + 1)
          rw [hmarks.before_first] at hcard
          simp only [Runs.bind_iff, runs_write, runs_setOffset, Runs.pure_iff]
          refine ⟨by simp only [List.length_cons, List.length_nil]; omega, rfl, hlast, ?_, ?_⟩
          · rw [Option.getD_some, blocks_valuestring hvaluestring]
            exact hnew
          · intro item' hitem'
            cases hitem'
            exact ⟨_, rfl, by simp only; omega, by simp only; omega⟩

/-- `parse_string` has an outcome on every input. -/
theorem runs_parseString (hle : s.offset < input.content.length) (hvaluestring : item.valuestring = none)
    (hheap : s.heap.Holds base item.blocks) : Runs (parseString input item) s (StringRead input s base item) := by
  have hstop : Runs (do setOffset (s.offset + 1); return none) s (StringRead input s base item) := by
    simp only [Runs.bind_iff, runs_setOffset, Runs.pure_iff]
    exact .failed rfl hle hheap
  unfold parseString
  rw [Runs.bind_iff, Runs.get_iff, Runs.bind_iff, runs_byteAt]
  refine ⟨input.content[s.offset], List.getElem?_eq_getElem hle, ?_⟩
  rw [Runs.ite_iff]
  refine ⟨fun _ => hstop, fun _ => ?_⟩
  rw [Runs.bind_iff]
  refine (runs_scanLiteral hle).mono fun r s' hr => ?_
  obtain ⟨rfl, hr⟩ := hr
  cases r with
  | none => exact hstop
  | some q =>
      obtain ⟨last, skipped⟩ := q
      have hscanned := hr _ rfl
      obtain ⟨E, hmarks, hcard⟩ := hscanned.marks
      have hge := hscanned.ge
      simp only at hmarks hcard hge ⊢
      rw [Runs.ite_iff]
      refine ⟨fun _ => hstop, fun hlast => ?_⟩
      rw [Runs.bind_iff, runs_contentAt]
      have hlast' : last < input.content.length := Nat.lt_of_not_le hlast
      refine ⟨input.content[last], List.getElem?_eq_getElem hlast', ?_⟩
      rw [Runs.ite_iff]
      refine ⟨fun _ => hstop, fun _ => ?_⟩
      rw [← hcard]
      exact runs_unescapeLiteral hvaluestring hheap hmarks hge hlast'

end Tle.Cjson
