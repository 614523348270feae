import Mathlib.Order.Lattice
import Mathlib.Data.List.Pairwise
import Mathlib.Tactic.Common

/-!
# Reading a list page by page

The rows stand in strictly decreasing order of their keys. A page has the first rows below a cursor, and the next
cursor is the key of its last row. The rows may change between the pages, as long as those below the cursor stay
what they were.
-/

namespace Tle.Lib

variable {α κ : Type*} [LinearOrder κ] {key : α → κ} {rows rows' before behind : List α} {cursor : κ} {limit : Nat}
  {last : α}

def Descending (key : α → κ) (rows : List α) : Prop := rows.Pairwise fun a b => key b < key a

def below (key : α → κ) (cursor : κ) (rows : List α) : List α := rows.filter fun a => key a < cursor

def page (key : α → κ) (limit : Nat) (cursor : κ) (rows : List α) : List α := (below key cursor rows).take limit

theorem Descending.below (h : Descending key rows) (cursor : κ) : Descending key (below key cursor rows) :=
  h.filter _

theorem below_below {c c' : κ} (h : c ≤ c') (rows : List α) :
    below key c (below key c' rows) = below key c rows := by
  rw [below, below, List.filter_filter, below]
  congr 1
  funext a
  have hle : key a < c → key a < c' := fun ha => lt_of_lt_of_le ha h
  by_cases ha : key a < c
  · simp [ha, hle ha]
  · simp [ha]

/-- The rows below the last of the first ones are those behind it. -/
theorem below_last (h : Descending key (before ++ behind)) (hlast : before.getLast? = some last) :
    below key (key last) (before ++ behind) = behind := by
  obtain ⟨init, rfl⟩ : ∃ init, before = init ++ [last] := by
    obtain ⟨init, hinit⟩ := List.getLast?_eq_some_iff.mp hlast
    exact ⟨init, hinit⟩
  rw [Descending, List.pairwise_append, List.pairwise_append] at h
  obtain ⟨⟨-, -, hinit⟩, -, hbehind⟩ := h
  have hnone : (init ++ [last]).filter (fun a => key a < key last) = [] := by
    rw [List.filter_eq_nil_iff]
    intro a ha
    rcases List.mem_append.mp ha with ha | ha
    · simpa using le_of_lt (hinit a ha last List.mem_cons_self)
    · rw [List.mem_singleton.mp ha]
      simp
  have hall : behind.filter (fun a => key a < key last) = behind := by
    rw [List.filter_eq_self]
    intro a ha
    exact decide_eq_true (hbehind last (by simp) a ha)
  rw [below, List.filter_append, hnone, hall, List.nil_append]

/-- A page and what is below its last row are what is below the cursor. -/
theorem page_append_below (h : Descending key rows) (hlast : (page key limit cursor rows).getLast? = some last) :
    page key limit cursor rows ++ below key (key last) rows = below key cursor rows := by
  have hcut : page key limit cursor rows ++ (below key cursor rows).drop limit = below key cursor rows :=
    List.take_append_drop limit _
  have hmem : last ∈ below key cursor rows := List.mem_of_mem_take (List.mem_of_getLast? hlast)
  have hlt : key last < cursor := by simpa using (List.mem_filter.mp hmem).2
  have hdown := h.below cursor
  rw [← hcut] at hdown
  have hbehind := below_last hdown hlast
  rw [hcut, below_below (le_of_lt hlt)] at hbehind
  rw [hbehind, hcut]

/-- With room for a row, a page is empty only at the end. -/
theorem page_eq_nil_iff (h : 0 < limit) : page key limit cursor rows = [] ↔ below key cursor rows = [] := by
  simp [page, List.take_eq_nil_iff, Nat.ne_of_gt h]

/-! ## The walk -/

/-- The cursor of the next page, and the rows of the pages so far. -/
structure Walk (α κ : Type*) where
  cursor : κ
  shown : List α := []
  ended : Bool := false

/-- One more page. -/
def Walk.visit (key : α → κ) (w : Walk α κ) (rows : List α) (limit : Nat) : Walk α κ :=
  if w.ended then w
  else match (page key limit w.cursor rows).getLast? with
  | none => { w with ended := true }
  | some last => { w with cursor := key last, shown := w.shown ++ page key limit w.cursor rows }

/-- The walk through the rows `all` has shown those down to its cursor. -/
structure Walk.Tracks (key : α → κ) (all : List α) (w : Walk α κ) : Prop where
  shown : w.shown ++ below key w.cursor all = all
  ended : w.ended = true → below key w.cursor all = []

namespace Walk

variable {w : Walk α κ} {all : List α}

theorem tracks_start (h : ∀ a ∈ all, key a < cursor) : Tracks key all { cursor } where
  shown := List.filter_eq_self.mpr fun a ha => decide_eq_true (h a ha)
  ended := nofun

theorem visit_of_ended (h : w.ended = true) (rows : List α) (limit : Nat) : w.visit key rows limit = w := by
  rw [visit, if_pos h]

theorem visit_of_nil (hgoes : w.ended = false) (h : page key limit w.cursor rows = []) :
    w.visit key rows limit = { w with ended := true } := by
  simp [visit, hgoes, h]

theorem visit_of_last (hgoes : w.ended = false) (hlast : (page key limit w.cursor rows).getLast? = some last) :
    w.visit key rows limit =
      { w with cursor := key last, shown := w.shown ++ page key limit w.cursor rows } := by
  simp [visit, hgoes, hlast]

/-- A page of the rows as they were continues the walk, or ends it. -/
theorem visit_cases (h : w.Tracks key all) (hall : Descending key all) (hgoes : w.ended = false)
    (hrows : below key w.cursor rows = below key w.cursor all) (hlimit : 0 < limit) :
    (w.visit key rows limit).Tracks key all ∧
      ((w.visit key rows limit).ended = true ∨ (w.visit key rows limit).shown.length > w.shown.length ∧
        ∃ a ∈ all, (w.visit key rows limit).cursor = key a) := by
  have hpage : page key limit w.cursor rows = page key limit w.cursor all := by rw [page, hrows, page]
  cases hlast : (page key limit w.cursor rows).getLast? with
  | none =>
      have hnil := List.getLast?_eq_none_iff.mp hlast
      have hend := (page_eq_nil_iff hlimit).mp (hpage ▸ hnil)
      rw [visit_of_nil hgoes hnil]
      exact ⟨⟨h.shown, fun _ => hend⟩, Or.inl rfl⟩
  | some last =>
      have hmem : last ∈ page key limit w.cursor all := hpage ▸ List.mem_of_getLast? hlast
      rw [visit_of_last hgoes hlast, hpage]
      refine ⟨⟨?_, fun hended => ?_⟩, Or.inr ⟨?_, last, ?_, rfl⟩⟩
      · rw [List.append_assoc, page_append_below hall (hpage ▸ hlast)]
        exact h.shown
      · rw [hgoes] at hended
        cases hended
      · rw [List.length_append, gt_iff_lt, Nat.lt_add_right_iff_pos]
        exact List.length_pos_of_mem hmem
      · exact (List.mem_filter.mp (List.mem_of_mem_take hmem)).1

/-- Where a walk stands after `n` pages: it has ended, or it is at its start or at a row it has shown. -/
structure Going (key : α → κ) (start : κ) (all : List α) (n : Nat) (w : Walk α κ) : Prop where
  tracks : w.Tracks key all
  stands : w.ended = true ∨ n ≤ w.shown.length ∧ (n = 0 ∧ w.cursor = start ∨ ∃ a ∈ all, w.cursor = key a)

/-- The rows below the cursor of the walk are those of `all`. -/
structure Agrees (key : α → κ) (start : κ) (all : List α) (n : Nat) (rows : List α) : Prop where
  first : n = 0 → below key start rows = below key start all
  next : ∀ a ∈ all, below key (key a) rows = below key (key a) all

namespace Going

variable {start : κ} {n : Nat}

theorem start_going (h : ∀ a ∈ all, key a < start) : Going key start all 0 { cursor := start } :=
  ⟨tracks_start h, Or.inr ⟨Nat.le_refl 0, Or.inl ⟨rfl, rfl⟩⟩⟩

theorem agrees (h : Going key start all n w) (hgoes : w.ended = false) (hrows : Agrees key start all n rows) :
    below key w.cursor rows = below key w.cursor all := by
  obtain ⟨-, ⟨hzero, hcursor⟩ | ⟨a, ha, hcursor⟩⟩ := h.stands.resolve_left (by simp [hgoes])
  · rw [hcursor]
    exact hrows.first hzero
  · rw [hcursor]
    exact hrows.next a ha

theorem visit (h : Going key start all n w) (hall : Descending key all) (hrows : Agrees key start all n rows)
    (hlimit : 0 < limit) : Going key start all (n + 1) (w.visit key rows limit) := by
  cases hended : w.ended with
  | true =>
      rw [visit_of_ended hended]
      exact ⟨h.tracks, Or.inl hended⟩
  | false =>
      obtain ⟨hlen, -⟩ := h.stands.resolve_left (by simp [hended])
      obtain ⟨htracks, hnext⟩ := visit_cases h.tracks hall hended (h.agrees hended hrows) hlimit
      refine ⟨htracks, hnext.imp_right fun hmore => ⟨?_, Or.inr hmore.2⟩⟩
      exact Nat.lt_of_le_of_lt hlen hmore.1

/-- The walk shows the rows from the first one on, all of them before it ends, and it ends after one more page
than there are rows. -/
theorem complete (h : Going key start all n w) : w.shown <+: all ∧ (w.ended = true → w.shown = all) ∧
    (all.length < n → w.ended = true) := by
  have hfront : w.shown <+: all := ⟨_, h.tracks.shown⟩
  refine ⟨hfront, fun hended => ?_, fun hlen => ?_⟩
  · have hshown := h.tracks.shown
    rwa [h.tracks.ended hended, List.append_nil] at hshown
  · apply h.stands.resolve_right
    intro hat
    have hle := hfront.length_le
    have hmore := hat.1
    omega

end Going

end Walk

end Tle.Lib
