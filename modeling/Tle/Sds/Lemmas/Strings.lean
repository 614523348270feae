import Tle.Sds.Strings

/-!
# What each function of `sds.c` does to a string
-/

namespace Tle.Sds
open Tle.Lib Tle.Lib.Comp

variable {m : Allocator} {s s' : Sdshdr} {t : Text} {heap heap' : Ledger} {base : Multiset Nat} {bs others : List Nat}
  {block n addlen off : Nat} {type : HeaderType}

/-! ## Strings -/

/-- The text of a string. -/
def Sdshdr.text (s : Sdshdr) : Text := s.buf.take s.len

/-- The longest text that there is room for. -/
def Sdshdr.capacity (s : Sdshdr) : Nat := if s.type = .type5 then s.len else s.alloc

structure Sdshdr.WellFormed (s : Sdshdr) : Prop where
  len_le : s.len ≤ s.capacity
  fits : s.capacity < 2 ^ s.type.bits
  room : s.capacity < s.buf.length
  nul : s.buf[s.len]? = some '\x00'

theorem Sdshdr.WellFormed.len_fits (hwf : s.WellFormed) : s.len < 2 ^ s.type.bits :=
  Nat.lt_of_le_of_lt hwf.len_le hwf.fits

theorem Sdshdr.WellFormed.length_text (hwf : s.WellFormed) : s.text.length = s.len := by
  have hlen := hwf.len_le
  have hroom := hwf.room
  rw [Sdshdr.text, List.length_take]
  omega

theorem lt_sdsReqType (hn : n < 2 ^ 64) : n < 2 ^ (sdsReqType n).bits := by
  unfold sdsReqType
  split
  · assumption
  · split
    · assumption
    · split
      · assumption
      · split <;> assumption

/-- The header that `sdsMakeRoomFor` takes is not the smallest one, and has room for the length. -/
theorem roomyType_spec (hn : n < 2 ^ 64) (htype : (if sdsReqType n = .type5 then .type8 else sdsReqType n) = type) :
    type ≠ .type5 ∧ n < 2 ^ type.bits := by
  have hfits := lt_sdsReqType hn
  subst htype
  split
  · rename_i hsmall
    rw [hsmall] at hfits
    have hbits : 2 ^ HeaderType.bits .type5 ≤ 2 ^ HeaderType.bits .type8 := by decide
    exact ⟨by simp, Nat.lt_of_lt_of_le hfits hbits⟩
  · rename_i hroomy
    exact ⟨hroomy, hfits⟩

theorem sub_wrap {alloc len : Nat} (hlen : len ≤ alloc) (hfits : alloc < 2 ^ n) :
    (alloc + 2 ^ n - len) % 2 ^ n = alloc - len := by
  rw [show alloc + 2 ^ n - len = alloc - len + 2 ^ n by omega, Nat.add_mod_right, Nat.mod_eq_of_lt (by omega)]

theorem avail_eq (hwf : s.WellFormed) : sdsavail s = s.capacity - s.len := by
  have hlen := hwf.len_le
  have hfits := hwf.fits
  unfold sdsavail Sdshdr.capacity at *
  cases htype : s.type with
  | type5 => simp
  | type32 =>
      simp only [htype, HeaderType.bits, reduceCtorEq, if_false] at hlen hfits ⊢
      exact sub_wrap hlen hfits
  | _ =>
      simp only [htype, HeaderType.bits, reduceCtorEq, if_false] at hlen hfits ⊢
      exact sub_wrap hlen (Nat.lt_of_lt_of_le hfits (by decide))

theorem hdrSize_le (type : HeaderType) : sdsHdrSize type ≤ 17 := by
  cases type <;> decide

/-! ## Memory -/

theorem runs_allocate {Q : Option Nat → Ledger → Prop} (hholds : heap.Holds base bs)
    (hsome : ∀ heap', heap'.count = heap.count + 1 → heap'.Holds base (heap.count :: bs) → Q (some heap.count) heap')
    (hnone : ∀ heap', m.allocates heap.count = false → heap'.count = heap.count + 1 → heap'.Holds base bs →
      Q none heap') : Runs (allocate m) heap Q := by
  cases hok : m.allocates heap.count with
  | true =>
      refine Runs.of_eq (a := some heap.count) ?_ (hsome (heap.allocate true).2 rfl hholds.allocate)
      rw [allocate, hok]
      rfl
  | false =>
      refine Runs.of_eq (a := none) ?_ (hnone (heap.allocate false).2 hok rfl hholds.refused)
      rw [allocate, hok]
      rfl

theorem count_free (hfree : heap.free block = some heap') : heap'.count = heap.count := by
  unfold Ledger.free at hfree
  split at hfree
  · cases hfree
    rfl
  · cases hfree

theorem runs_deallocate {Q : Unit → Ledger → Prop} (hholds : heap.Holds base (block :: bs))
    (hQ : ∀ heap', heap'.count = heap.count → heap'.Holds base bs → Q () heap') : Runs (deallocate block) heap Q := by
  obtain ⟨heap', hfree, hholds'⟩ := hholds.free
  refine Runs.of_eq (a := ()) ?_ (hQ heap' (count_free hfree) hholds')
  rw [deallocate, hfree]
  rfl

theorem length_fresh (m : Allocator) (block size : Nat) : (m.fresh block size).length = size := by
  simp [Allocator.fresh]

theorem runs_copy {Q : Sdshdr → Ledger → Prop} (hroom : off + t.length ≤ s.buf.length)
    (hQ : Q { s with buf := s.buf.take off ++ (t ++ s.buf.drop (off + t.length)) } heap) :
    Runs (copy s off t) heap Q := by
  rw [copy, if_pos hroom]
  exact Runs.pure_iff.mpr hQ

/-! ## Writing into a buffer -/

section Writing

variable {buf : Text}

theorem length_written (hroom : off + t.length ≤ buf.length) :
    (buf.take off ++ (t ++ buf.drop (off + t.length))).length = buf.length := by
  simp only [List.length_append, List.length_take, List.length_drop]
  omega

theorem take_written (hroom : off + t.length ≤ buf.length) :
    (buf.take off ++ (t ++ buf.drop (off + t.length))).take (off + t.length) = buf.take off ++ t := by
  have hlength : (buf.take off ++ t).length = off + t.length := by
    rw [List.length_append, List.length_take]
    omega
  rw [← List.append_assoc, ← hlength, List.take_left]

theorem getElem?_written (hroom : off < buf.length) (c : Char) :
    (buf.take off ++ ([c] ++ buf.drop (off + 1)))[off]? = some c := by
  have hlength : (buf.take off).length = off := by
    rw [List.length_take]
    omega
  rw [List.getElem?_append_right (by omega), hlength, Nat.sub_self]
  rfl

theorem take_terminated (hroom : off < buf.length) (c : Char) :
    (buf.take off ++ ([c] ++ buf.drop (off + 1))).take off = buf.take off := by
  have hlength : (buf.take off).length = off := by
    rw [List.length_take]
    omega
  rw [List.take_append_of_le_length (by omega), List.take_of_length_le (by omega)]

end Writing

/-! ## The last byte -/

/-- A string is well formed as soon as it is terminated. -/
theorem runs_terminate {Q : Sdshdr → Ledger → Prop} (hlen : s.len ≤ s.capacity) (hfits : s.capacity < 2 ^ s.type.bits)
    (hroom : s.capacity < s.buf.length)
    (hQ : ∀ s' : Sdshdr, s'.WellFormed → s'.text = s.text → s'.len = s.len → s'.capacity = s.capacity →
      s'.block = s.block → Q s' heap) : Runs (copy s s.len ['\x00']) heap Q := by
  have hlt : s.len < s.buf.length := Nat.lt_of_le_of_lt hlen hroom
  apply runs_copy hlt
  refine hQ _ ⟨hlen, hfits, ?_, getElem?_written hlt _⟩ (take_terminated hlt _) rfl rfl rfl
  have hlength : (s.buf.take s.len ++ (['\x00'] ++ s.buf.drop (s.len + 1))).length = s.buf.length := length_written hlt
  exact Nat.lt_of_lt_of_eq hroom hlength.symm

/-! ## New headers -/

section Headers

variable {alloc : Nat} {buf : Text}

theorem make_len (hlen : n < 2 ^ type.bits) : (Sdshdr.make block type n alloc buf).len = n := by
  unfold Sdshdr.make sdssetalloc
  split <;> exact Nat.mod_eq_of_lt hlen

theorem make_type : (Sdshdr.make block type n alloc buf).type = type := by
  unfold Sdshdr.make sdssetalloc
  split <;> rfl

@[simp] theorem make_block : (Sdshdr.make block type n alloc buf).block = block := by
  unfold Sdshdr.make sdssetalloc
  split <;> rfl

@[simp] theorem make_buf : (Sdshdr.make block type n alloc buf).buf = buf := by
  unfold Sdshdr.make sdssetalloc
  split <;> rfl

theorem make_write (buf' : Text) :
    { Sdshdr.make block type n alloc buf with buf := buf' } = Sdshdr.make block type n alloc buf' := by
  unfold Sdshdr.make sdssetalloc
  split <;> rfl

/-- The smallest header has room for its own text only. -/
theorem make_capacity (hlen : n < 2 ^ type.bits) (halloc : alloc < 2 ^ type.bits)
    (hsmall : type = .type5 → alloc = n) : (Sdshdr.make block type n alloc buf).capacity = alloc := by
  have hmade : (Sdshdr.make block type n alloc buf).len = n := make_len hlen
  rw [Sdshdr.capacity, make_type, hmade]
  by_cases htype : type = .type5
  · rw [if_pos htype, hsmall htype]
  · rw [if_neg htype, Sdshdr.make, sdssetalloc, if_neg htype]
    exact Nat.mod_eq_of_lt halloc

/-- The first bytes of a new string are copied into it. -/
theorem runs_fill {Q : Sdshdr → Ledger → Prop} (hin : t.length ≤ buf.length)
    (hQ : ∀ buf' : Text, buf'.length = buf.length → buf'.take t.length = t →
      Q (.make block type n alloc buf') heap) : Runs (copy (.make block type n alloc buf) 0 t) heap Q := by
  have hstart : 0 + t.length ≤ buf.length := by omega
  apply runs_copy
  · rw [make_buf]
    exact hstart
  · rw [make_buf, make_write]
    apply hQ _ (length_written hstart)
    have hprefix := take_written hstart
    rwa [Nat.zero_add, List.take_zero, List.nil_append] at hprefix ⊢

end Headers

end Tle.Sds
