import Tle.Grade.Lemmas.Scoring

/-!
# The brackets around the markers
-/

namespace Tle.Grade
open Tle.Lib

variable {task : Task} {groups gs : List Group} {raws : Nat → Option Text} {a b k n : Nat} {g : Group}

/-- What case `k` adds to the result string. -/
def caseText (n : Nat) (groups : List Group) (raws : Nat → Option Text) (k : Nat) : Text :=
  openBrackets groups (BitVec.ofNat 32 k) ++ [subtaskCaseMarker (raws k)] ++
    closeBrackets (BitVec.ofNat 32 n) groups (BitVec.ofNat 32 k)

theorem scoreCases_subtaskResults : (scoreCases task groups raws n).subtaskResults =
    (casesUpTo n).flatMap (caseText task.countCases groups raws) := by
  induction n with
  | zero => rfl
  | succ n ih =>
      have hstep : (scoreCases task groups raws (n + 1)).subtaskResults =
          (scoreCases task groups raws n).subtaskResults ++
            caseText task.countCases groups raws (n + 1) := by
        rw [scoreCases]
        cases hraw : raws (n + 1) <;> simp [Scoring.step, caseText, hraw]
      rw [hstep, ih, casesUpTo_succ, List.flatMap_append]
      simp

def markers (raws : Nat → Option Text) (r : Range) : Text :=
  r.members.flatMap fun k => [subtaskCaseMarker (raws k)]

/-! ## The brackets at one case -/

theorem ofNat_eq_iff (hk : k < 2 ^ 32) (x : BitVec 32) : BitVec.ofNat 32 k = x ↔ k = x.toNat := by
  rw [← BitVec.toNat_inj, BitVec.toNat_ofNat, Nat.mod_eq_of_lt hk]

section Case

variable (hchain : Range.Chain 1 (groups.map Group.range) (n + 1)) (hn : n < 2 ^ 32 - 1)
  (hg : g ∈ groups) (hk : g.range.Has k)

include hchain hg

theorem range_bounds :
    1 ≤ g.range.start ∧ 0 < g.range.size ∧ g.range.start + g.range.size ≤ n + 1 :=
  hchain.bounds (List.mem_map_of_mem hg)

include hn

theorem eq_last_iff (hlt : k < 2 ^ 32) :
    BitVec.ofNat 32 k = g.last ↔ k = g.range.start + g.range.size - 1 := by
  have hbounds := range_bounds hchain hg
  rw [ofNat_eq_iff hlt, last_toNat hbounds.2.1 (by omega)]

include hk

theorem openBrackets_eq : openBrackets groups (BitVec.ofNat 32 k) =
    if k = g.range.start then "[".toList else [] := by
  have hbounds := range_bounds hchain hg
  have hlt : k < 2 ^ 32 := by omega
  have hstart : ∀ g' : Group, BitVec.ofNat 32 k = g'.caseStart ↔ k = g'.range.start :=
    fun g' => ofNat_eq_iff hlt g'.caseStart
  have hown : ∀ r ∈ groups.map Group.range, r.Has r.start := by
    intro r hr
    have hrbounds := hchain.bounds hr
    exact ⟨by omega, by omega⟩
  -- exactly the group that contains `k` can start at it
  have hex := hchain.exists_own_iff hown (List.mem_map_of_mem hg) hk
  have hflat : (groups.flatMap fun g' => if BitVec.ofNat 32 k = g'.caseStart then "[".toList else []) =
      if k = g.range.start then "[".toList else [] := by
    have hsum := hchain.flatMap_own (k := k) hown "[".toList
    rw [List.flatMap_map] at hsum
    simp only [hstart]
    rw [hsum]
    exact if_congr hex rfl rfl
  cases groups with
  | nil => cases hg
  | cons g₀ rest =>
      rw [openBrackets, hflat]
      by_cases h₀ : BitVec.ofNat 32 k = g₀.caseStart
      · have hstart₀ := (hstart g₀).mp h₀
        rw [if_pos h₀, if_pos (hex.mp ⟨g₀.range, List.mem_cons_self .., hstart₀⟩)]
      · rw [if_neg h₀]

theorem closeBrackets_eq : closeBrackets (BitVec.ofNat 32 n) groups (BitVec.ofNat 32 k) =
    if k = g.range.start + g.range.size - 1 then
      (if g.range.start + g.range.size = n + 1 then "]".toList else "][".toList)
    else [] := by
  have hbounds := range_bounds hchain hg
  have hlt : k < 2 ^ 32 := by omega
  obtain ⟨init, final, rfl⟩ : ∃ init final, groups = init ++ [final] := by
    rcases List.eq_nil_or_concat groups with rfl | ⟨init, final, rfl⟩
    · cases hg
    · exact ⟨init, final, List.concat_eq_append⟩
  have hsplit := hchain
  rw [List.map_append, List.map_singleton, Range.Chain.append_singleton_iff] at hsplit
  obtain ⟨hinit, hsize, hend⟩ := hsplit
  have hfinal : BitVec.ofNat 32 k = final.last ↔ k = n := by
    rw [eq_last_iff hchain hn (by simp) hlt]
    omega
  have hlast : ∀ g' ∈ init, (BitVec.ofNat 32 k = g'.last ↔
      k = g'.range.start + g'.range.size - 1) :=
    fun g' hg' => eq_last_iff hchain hn (List.mem_append_left _ hg') hlt
  simp only [closeBrackets, List.getLast?_append, List.getLast?_singleton, Option.some_or,
    List.dropLast_concat, hfinal]
  by_cases hkn : k = n
  · rw [if_pos hkn, if_pos (by omega), if_pos (by omega)]
  rw [if_neg hkn]
  have hown : ∀ r ∈ (init ++ [final]).map Group.range, r.Has (r.start + r.size - 1) := by
    intro r hr
    have hrbounds := hchain.bounds hr
    exact ⟨by omega, by omega⟩
  -- exactly the group that contains `k` can end at it, and it is not the final one
  have hex : (∃ r ∈ init.map Group.range, k = r.start + r.size - 1) ↔
      k = g.range.start + g.range.size - 1 := by
    rw [← hchain.exists_own_iff hown (List.mem_map_of_mem hg) hk, List.map_append, List.map_singleton]
    have hnot : k ≠ final.range.start + final.range.size - 1 := by omega
    simp [hnot]
  have hsum := hinit.flatMap_own (k := k)
    (fun r hr => hown r (by rw [List.map_append]; exact List.mem_append_left _ hr)) "][".toList
  rw [List.flatMap_map] at hsum
  have hflat : (init.flatMap fun g' => if BitVec.ofNat 32 k = g'.last then "][".toList else []) =
      init.flatMap fun g' => if k = g'.range.start + g'.range.size - 1 then "][".toList else [] := by
    apply List.flatMap_congr
    intro g' hg'
    exact if_congr (hlast g' hg') rfl rfl
  rw [hflat, hsum, if_congr hex rfl rfl]
  by_cases hkg : k = g.range.start + g.range.size - 1
  · rw [if_pos hkg, if_pos hkg, if_neg (by omega)]
  · rw [if_neg hkg, if_neg hkg]

end Case

/-! ## The whole string -/

def bracket (raws : Nat → Option Text) (r : Range) : Text :=
  "[".toList ++ markers raws r ++ "]".toList

def bracketed (raws : Nat → Option Text) (groups : List Group) (n : Nat) : Text :=
  if groups = [] then bracket raws ⟨1, n⟩ else (groups.map Group.range).flatMap (bracket raws)

/-- What the code writes for each group: every group but the last is closed by a closing and another
opening bracket. -/
def writtenBrackets (raws : Nat → Option Text) (n : Nat) (r : Range) : Text :=
  "[".toList ++ markers raws r ++ (if r.start + r.size = n + 1 then "]".toList else "][".toList)

theorem subtaskResults_uniform (hpos : 1 ≤ n) (hn : n < 2 ^ 32 - 1) :
    (casesUpTo n).flatMap (caseText n [] raws) = bracketed raws [] n := by
  have hmembers : casesUpTo n = (⟨1, n⟩ : Range).members := rfl
  rw [hmembers, bracketed, if_pos rfl, bracket, markers]
  apply Range.flatMap_members (r := ⟨1, n⟩) hpos
  intro k hk
  have hlt : k < 2 ^ 32 := by simp only [Range.Has] at hk; omega
  have hone : BitVec.ofNat 32 k = 1 ↔ k = 1 := ofNat_eq_iff hlt 1
  have hend : BitVec.ofNat 32 k = BitVec.ofNat 32 n ↔ k = 1 + n - 1 := by
    rw [ofNat_eq_iff hlt, BitVec.toNat_ofNat, Nat.mod_eq_of_lt (by omega)]
    omega
  simp only [caseText, openBrackets, closeBrackets, List.getLast?_nil, hone, hend]

theorem subtaskResults_groups (hchain : Range.Chain 1 (groups.map Group.range) (n + 1))
    (hn : n < 2 ^ 32 - 1) : (casesUpTo n).flatMap (caseText n groups raws) =
      (groups.map Group.range).flatMap (writtenBrackets raws n) := by
  have hcases : casesUpTo n = List.range' 1 (n + 1 - 1) := by rw [casesUpTo, Nat.add_sub_cancel]
  rw [hcases]
  apply hchain.flatMap_text
  intro r hr
  obtain ⟨g, hg, rfl⟩ := List.mem_map.mp hr
  have hbounds := range_bounds hchain hg
  rw [writtenBrackets, markers]
  apply Range.flatMap_members hbounds.2.1
  intro k hk
  rw [caseText, openBrackets_eq hchain hn hg hk, closeBrackets_eq hchain hn hg hk]

theorem length_bracket (r : Range) : (bracket raws r).length = (markers raws r).length + 2 := by
  simp [bracket]

theorem length_writtenBrackets (r : Range) : (writtenBrackets raws n r).length =
    (markers raws r).length + (if r.start + r.size = n + 1 then 2 else 3) := by
  unfold writtenBrackets
  split
  · simp
  · simp

theorem length_bracket_le (rs : List Range) :
    (rs.flatMap (bracket raws)).length ≤ (rs.flatMap (writtenBrackets raws n)).length := by
  induction rs with
  | nil => exact Nat.le_refl _
  | cons r rs ih =>
      simp only [List.flatMap_cons, List.length_append, length_bracket, length_writtenBrackets]
      split <;> omega

/-- The brackets of the code are the ones of the specification for a single group only: with more
groups every closing bracket but the last is followed by one opening bracket too many. -/
theorem writtenBrackets_eq_iff {rs : List Range} (hchain : Range.Chain a rs (n + 1)) :
    rs.flatMap (writtenBrackets raws n) = rs.flatMap (bracket raws) ↔ rs.length ≤ 1 := by
  rcases rs with _ | ⟨r, _ | ⟨r', rs⟩⟩
  · simp
  · obtain ⟨hstart, -, hend⟩ := hchain
    have hlast : r.start + r.size = n + 1 := by rw [hstart]; exact hend
    simp [writtenBrackets, bracket, hlast]
  · refine iff_of_false ?_ (by simp)
    obtain ⟨hstart, hsize, hrest⟩ := hchain
    have hnext := hrest.bounds (List.mem_cons_self ..)
    intro heq
    have hlen := congrArg List.length heq
    have hle := @length_bracket_le raws n (r' :: rs)
    have hne : r.start + r.size ≠ n + 1 := by omega
    simp only [List.flatMap_cons, List.length_append, length_bracket, length_writtenBrackets, hne,
      ↓reduceIte] at hlen hle
    omega

end Tle.Grade
