import Tle.Sds.Lemmas.Append

/-!
# New strings, and strings that lose their last byte
-/

namespace Tle.Sds
open Tle.Lib Tle.Lib.Comp

variable {m : Allocator} {s s' : Sdshdr} {t init : Text} {heap heap' : Ledger} {base : Multiset Nat}
  {others : List Nat} {initlen : Nat}

/-- A new string, or the allocator has refused. -/
def Created (m : Allocator) (base : Multiset Nat) (others : List Nat) (heap : Ledger) (t : Text) :
    Option Sdshdr → Ledger → Prop
  | some s, heap' => s.WellFormed ∧ s.text = t ∧ heap'.Holds base (s.block :: others) ∧
      heap'.count = heap.count + 1
  | none, heap' => m.allocates heap.count = false ∧ heap'.Holds base others

theorem newType_fits {n : Nat} (hn : n < 2 ^ 64) :
    n < 2 ^ (if sdsReqType n = .type5 ∧ n = 0 then HeaderType.type8 else sdsReqType n).bits := by
  split
  · rename_i hempty
    rw [hempty.2]
    exact Nat.two_pow_pos _
  · exact lt_sdsReqType hn

theorem runs_sdsnewlen (hholds : heap.Holds base others) (hfar : initlen < 2 ^ 62) (hinit : initlen ≤ init.length) :
    Runs (sdsnewlen m (some init) initlen) heap (Created m base others heap (init.take initlen)) := by
  unfold sdsnewlen
  have hfits := newType_fits (show initlen < 2 ^ 64 by omega)
  generalize (if sdsReqType initlen = .type5 ∧ initlen = 0 then HeaderType.type8 else sdsReqType initlen) = type
    at hfits ⊢
  have hheader := hdrSize_le type
  have hsize : (sdsHdrSize type + initlen + 1) % 2 ^ 64 - sdsHdrSize type = initlen + 1 := by
    rw [Nat.mod_eq_of_lt (by omega)]
    omega
  dsimp only
  rw [hsize, Runs.bind_iff]
  apply runs_allocate hholds
  · intro heap₁ hcount hholds₁
    dsimp only
    have htake : (init.take initlen).length = initlen := by
      rw [List.length_take]
      omega
    have hin : (init.take initlen).length ≤ (m.fresh heap.count (initlen + 1)).length := by
      rw [htake, length_fresh]
      omega
    rw [if_neg (by omega), Runs.bind_iff]
    apply runs_fill hin
    intro buf hlength hprefix
    rw [length_fresh] at hlength
    rw [htake] at hprefix
    rw [Runs.bind_iff]
    have hlen : (Sdshdr.make heap.count type initlen initlen buf).len = initlen := make_len hfits
    have hcapacity : (Sdshdr.make heap.count type initlen initlen buf).capacity = initlen :=
      make_capacity hfits hfits fun _ => rfl
    generalize hnew : Sdshdr.make heap.count type initlen initlen buf = s at hlen hcapacity ⊢
    have hbuf : s.buf = buf := by
      rw [← hnew]
      exact make_buf
    have hblock : s.block = heap.count := by
      rw [← hnew]
      exact make_block
    have htype : s.type = type := by
      rw [← hnew]
      exact make_type
    have hterm : Runs (copy s s.len ['\x00']) heap₁ fun s' heap' => Runs (pure (some s') : Comp Ledger (Option Sdshdr))
        heap' (Created m base others heap (init.take initlen)) := by
      apply runs_terminate
      · rw [hlen, hcapacity]
      · rw [hcapacity, htype]
        exact hfits
      · rw [hcapacity, hbuf, hlength]
        exact Nat.lt_succ_self _
      · intro s₃ hwf₃ htext₃ hlen₃ hcapacity₃ hblock₃
        rw [Runs.pure_iff]
        refine ⟨hwf₃, ?_, ?_, hcount⟩
        · rw [htext₃, Sdshdr.text, hlen, hbuf, hprefix]
        · rw [hblock₃, hblock]
          exact hholds₁
    rwa [hlen] at hterm
  · intro heap₁ hrefused hcount hholds₁
    rw [Runs.pure_iff]
    exact ⟨hrefused, hholds₁⟩

/-- A string without its last byte, in the block where it was. -/
theorem runs_sdsIncrLen {Q : Sdshdr → Ledger → Prop} (hwf : s.WellFormed) (hlen : s.len ≠ 0)
    (hQ : ∀ s' : Sdshdr, s'.WellFormed → s'.text = s.text.dropLast → s'.block = s.block → Q s' heap) :
    Runs (sdsIncrLen s) heap Q := by
  have hlenLe := hwf.len_le
  unfold sdsIncrLen
  rw [if_neg (by omega)]
  have hnewlen : (sdssetlen s (s.len - 1)).len = s.len - 1 :=
    Nat.mod_eq_of_lt (Nat.lt_of_le_of_lt (Nat.sub_le _ _) hwf.len_fits)
  have hcapacity : s.len - 1 ≤ (sdssetlen s (s.len - 1)).capacity ∧
      (sdssetlen s (s.len - 1)).capacity ≤ s.capacity := by
    unfold Sdshdr.capacity at *
    by_cases htype : s.type = .type5
    · rw [if_pos htype, if_pos (show (sdssetlen s (s.len - 1)).type = .type5 from htype), hnewlen]
      exact ⟨Nat.le_refl _, Nat.sub_le _ _⟩
    · rw [if_neg htype] at hlenLe ⊢
      rw [if_neg (show ¬ (sdssetlen s (s.len - 1)).type = .type5 from htype)]
      exact ⟨Nat.le_trans (Nat.sub_le _ _) hlenLe, Nat.le_refl _⟩
  apply runs_terminate
  · rw [hnewlen]
    exact hcapacity.1
  · exact Nat.lt_of_le_of_lt hcapacity.2 hwf.fits
  · exact Nat.lt_of_le_of_lt hcapacity.2 hwf.room
  · intro s' hwf' htext hlen' hcapacity' hblock
    refine hQ s' hwf' ?_ hblock
    rw [htext, List.dropLast_eq_take, hwf.length_text, Sdshdr.text, Sdshdr.text, hnewlen, List.take_take,
      Nat.min_eq_left (Nat.sub_le _ _)]
    rfl

end Tle.Sds
