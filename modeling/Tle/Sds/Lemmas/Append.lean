import Tle.Sds.Lemmas.Strings

/-!
# Appending to a string
-/

namespace Tle.Sds
open Tle.Lib Tle.Lib.Comp

variable {m : Allocator} {s s' : Sdshdr} {t init : Text} {heap heap' : Ledger} {base : Multiset Nat}
  {others : List Nat} {addlen : Nat}

/-- What `sdsMakeRoomFor` has left of a string. -/
structure Roomy (s : Sdshdr) (addlen : Nat) (s' : Sdshdr) : Prop where
  wellFormed : s'.WellFormed
  text : s'.text = s.text
  len : s'.len = s.len
  room : s.len + addlen ≤ s'.capacity

/-- The allocations, but for those that are paid for already, are paid for by the potential of the new capacity. -/
structure Paid (paid : Nat) (s : Sdshdr) (needed : Nat) (heap' : Ledger) (s' : Sdshdr) : Prop where
  count : heap'.count + potential 20 s.capacity ≤ paid + potential 20 s'.capacity
  bound : potential 20 s'.capacity ≤ potential 20 s.capacity ∨ potential 20 s'.capacity ≤ 22 + needed / 2 ^ 20

theorem Paid.of_capacity {paid needed : Nat} {s'' : Sdshdr} (h : Paid paid s needed heap' s')
    (heq : s''.capacity = s'.capacity) : Paid paid s needed heap' s'' := by
  obtain ⟨hcount, hbound⟩ := h
  rw [← heq] at hcount hbound
  exact ⟨hcount, hbound⟩

/-- The string has room, or the allocator has refused and the old block is still there. -/
def MadeRoom (m : Allocator) (base : Multiset Nat) (others : List Nat) (heap : Ledger) (s : Sdshdr) (addlen : Nat) :
    Option Sdshdr → Ledger → Prop
  | some s', heap' => Roomy s addlen s' ∧ heap'.Holds base (s'.block :: others) ∧
      Paid heap.count s (s.len + addlen) heap' s'
  | none, heap' => m.allocates heap.count = false ∧ heap'.Holds base (s.block :: others)

/-! ## Room for more -/

section Room

variable {type : HeaderType} {newlen size : Nat} {buf : Text}

/-- A header of the right type before a copy of the string. -/
theorem roomy_make (block : Nat) (hwf : s.WellFormed) (hneeded : s.len + addlen ≤ newlen)
    (hfits : newlen < 2 ^ type.bits) (htype : type ≠ .type5) (hroom : newlen < buf.length)
    (hbuf : buf.take (s.len + 1) = s.buf.take (s.len + 1)) :
    Roomy s addlen (.make block type s.len newlen buf) ∧
      (Sdshdr.make block type s.len newlen buf).capacity = newlen := by
  have hlenFits : s.len < 2 ^ type.bits := by omega
  have hlen : (Sdshdr.make block type s.len newlen buf).len = s.len := make_len hlenFits
  have hcapacity : (Sdshdr.make block type s.len newlen buf).capacity = newlen :=
    make_capacity hlenFits hfits (fun h => absurd h htype)
  have htext : buf.take s.len = s.buf.take s.len := by
    have htake := congrArg (List.take s.len) hbuf
    rwa [List.take_take, List.take_take, Nat.min_eq_left (Nat.le_succ _)] at htake
  have hnul : buf[s.len]? = s.buf[s.len]? := by
    have hget := congrArg (fun l => l[s.len]?) hbuf
    simpa using hget
  refine ⟨⟨⟨?_, ?_, ?_, ?_⟩, ?_, hlen, ?_⟩, hcapacity⟩
  · rw [hlen, hcapacity]
    omega
  · rw [hcapacity, make_type]
    exact hfits
  · rw [hcapacity, make_buf]
    exact hroom
  · rw [hlen, make_buf, hnul]
    exact hwf.nul
  · rw [Sdshdr.text, Sdshdr.text, hlen, make_buf]
    exact htext
  · rw [hcapacity]
    exact hneeded

/-- What both ways to make room come to. -/
def Replaced (m : Allocator) (base : Multiset Nat) (others : List Nat) (heap : Ledger) (s : Sdshdr)
    (addlen newlen : Nat) : Option Sdshdr → Ledger → Prop
  | some s', heap' => Roomy s addlen s' ∧ s'.capacity = newlen ∧ heap'.Holds base (s'.block :: others) ∧
      heap'.count = heap.count + 1
  | none, heap' => m.allocates heap.count = false ∧ heap'.Holds base (s.block :: others)

theorem runs_enlarge (hwf : s.WellFormed) (hholds : heap.Holds base (s.block :: others))
    (hneeded : s.len + addlen ≤ newlen) (hfits : newlen < 2 ^ s.type.bits) (hroomy : s.type ≠ .type5)
    (hsize : size = sdsHdrSize s.type + newlen + 1) :
    Runs (enlarge m s newlen size) heap (Replaced m base others heap s addlen newlen) := by
  have hroom := hwf.room
  have hlen := hwf.len_le
  unfold enlarge reallocate
  simp only [Runs.bind_iff]
  apply runs_allocate hholds
  · intro heap₁ hcount hholds₁
    simp only [Runs.bind_iff]
    apply runs_deallocate (hholds₁.perm (List.Perm.swap _ _ _))
    intro heap₂ hcount₂ hholds₂
    simp only [Runs.pure_iff]
    generalize hbuf : (s.buf ++ m.fresh heap.count size).take (size - sdsHdrSize s.type) = buf
    have hbuflen : size - sdsHdrSize s.type = newlen + 1 := by omega
    have hmade : sdssetalloc { s with block := heap.count, buf } newlen =
        Sdshdr.make heap.count s.type s.len newlen buf := by
      unfold Sdshdr.make sdssetalloc
      rw [Nat.mod_eq_of_lt hwf.len_fits, if_neg hroomy, if_neg hroomy]
    have hlength : newlen < buf.length := by
      rw [← hbuf, hbuflen, List.length_take, List.length_append, length_fresh]
      omega
    have hprefix : buf.take (s.len + 1) = s.buf.take (s.len + 1) := by
      rw [← hbuf, hbuflen, List.take_take, Nat.min_eq_left (by omega), List.take_append_of_le_length (by omega)]
    have hnew := roomy_make heap.count hwf hneeded hfits hroomy hlength hprefix
    rw [hmade]
    refine ⟨hnew.1, hnew.2, ?_, hcount₂.trans hcount⟩
    rw [make_block]
    exact hholds₂
  · intro heap₁ hrefused hcount hholds₁
    simp only [Runs.pure_iff]
    exact ⟨hrefused, hholds₁⟩

theorem runs_move (hwf : s.WellFormed) (hholds : heap.Holds base (s.block :: others))
    (hneeded : s.len + addlen ≤ newlen) (hfits : newlen < 2 ^ type.bits) (hroomy : type ≠ .type5)
    (hsize : size = sdsHdrSize type + newlen + 1) :
    Runs (move m s type newlen size) heap (Replaced m base others heap s addlen newlen) := by
  have hroom := hwf.room
  have hlen := hwf.len_le
  have htake : (s.buf.take (s.len + 1)).length = s.len + 1 := by
    rw [List.length_take]
    omega
  unfold move
  simp only [Runs.bind_iff]
  apply runs_allocate hholds
  · intro heap₁ hcount hholds₁
    have hbuflen : size - sdsHdrSize type = newlen + 1 := by omega
    have hfresh : (s.buf.take (s.len + 1)).length ≤ (m.fresh heap.count (newlen + 1)).length := by
      rw [htake, length_fresh]
      omega
    dsimp only
    rw [if_neg (by omega), hbuflen, Runs.bind_iff]
    apply runs_fill hfresh
    intro buf hlength hprefix
    rw [length_fresh] at hlength
    rw [htake] at hprefix
    rw [Runs.bind_iff]
    apply runs_deallocate (hholds₁.perm (List.Perm.swap _ _ _))
    intro heap₂ hcount₂ hholds₂
    rw [Runs.pure_iff]
    have hnew := roomy_make heap.count hwf hneeded hfits hroomy
      (by rw [hlength]; exact Nat.lt_succ_self _) hprefix
    refine ⟨hnew.1, hnew.2, ?_, hcount₂.trans hcount⟩
    rw [make_block]
    exact hholds₂
  · intro heap₁ hrefused hcount hholds₁
    simp only [Runs.pure_iff]
    exact ⟨hrefused, hholds₁⟩

/-- The overflow that the source asserts against cannot happen to a length that is far from it. -/
theorem runs_makeRoom (hwf : s.WellFormed) (hholds : heap.Holds base (s.block :: others))
    (hfar : s.len + addlen < 2 ^ 62) :
    Runs (sdsMakeRoomFor m s addlen) heap (MadeRoom m base others heap s addlen) := by
  have hlen := hwf.len_le
  unfold sdsMakeRoomFor
  rw [avail_eq hwf]
  split
  · rename_i havail
    rw [Runs.pure_iff]
    exact ⟨⟨hwf, rfl, rfl, by omega⟩, hholds, Nat.le_refl _, Or.inl (Nat.le_refl _)⟩
  · rename_i hshort
    have hreq : (s.len + addlen) % 2 ^ 64 = s.len + addlen := Nat.mod_eq_of_lt (by omega)
    have hgrowLt : grow 20 (s.len + addlen) < 2 ^ 63 := by
      unfold grow
      split <;> omega
    have hgrow : grow 20 (s.len + addlen) % 2 ^ 64 = grow 20 (s.len + addlen) := Nat.mod_eq_of_lt (by omega)
    have hneeded := needed_le_grow 20 (s.len + addlen)
    have hless : s.capacity < s.len + addlen := by omega
    have hpotential := potential_lt_grow (k := 20) hless
    have hbound := potential_grow_le 20 (s.len + addlen)
    dsimp only
    rw [hreq, hgrow]
    generalize grow 20 (s.len + addlen) = newlen at hgrowLt hneeded hpotential hbound ⊢
    generalize htype : (if sdsReqType newlen = .type5 then .type8 else sdsReqType newlen) = type
    obtain ⟨hroomy, hfits⟩ := roomyType_spec (by omega) htype
    have hheader := hdrSize_le type
    have hsize : (sdsHdrSize type + newlen + 1) % 2 ^ 64 = sdsHdrSize type + newlen + 1 := Nat.mod_eq_of_lt (by omega)
    have hmade : ∀ r heap', Replaced m base others heap s addlen newlen r heap' →
        MadeRoom m base others heap s addlen r heap' := by
      intro r heap' hr
      cases r with
      | none => exact hr
      | some s' =>
          obtain ⟨hnew, hcapacity, hholds', hcount⟩ := hr
          rw [← hcapacity] at hpotential hbound
          exact ⟨hnew, hholds', by omega, Or.inr hbound⟩
    rw [hsize, if_neg (by omega)]
    split
    · rename_i hsame
      subst hsame
      exact (runs_enlarge hwf hholds hneeded hfits hroomy rfl).mono hmade
    · exact (runs_move hwf hholds hneeded hfits hroomy rfl).mono hmade

end Room

/-! ## The new text -/

/-- The text has been appended, or the allocator has refused and the old block is still there. -/
def Appended (m : Allocator) (base : Multiset Nat) (others : List Nat) (heap : Ledger) (s : Sdshdr) (t : Text) :
    Option Sdshdr → Ledger → Prop
  | some s', heap' => s'.WellFormed ∧ s'.text = s.text ++ t ∧ heap'.Holds base (s'.block :: others) ∧
      Paid heap.count s (s.len + t.length) heap' s'
  | none, heap' => m.allocates heap.count = false ∧ heap'.Holds base (s.block :: others)

/-- A new length that the string has room for. -/
theorem setlen_capacity {n : Nat} (buf : Text) (hwf : s.WellFormed) (hn : s.len ≤ n) (hroom : n ≤ s.capacity) :
    (sdssetlen { s with buf } n).len = n ∧ (sdssetlen { s with buf } n).capacity = s.capacity := by
  have hlen : (sdssetlen { s with buf } n).len = n :=
    Nat.mod_eq_of_lt (Nat.lt_of_le_of_lt hroom hwf.fits)
  refine ⟨hlen, ?_⟩
  unfold Sdshdr.capacity at *
  by_cases htype : s.type = .type5
  · rw [if_pos htype] at hroom ⊢
    rw [if_pos (show (sdssetlen { s with buf } n).type = .type5 from htype), hlen]
    exact Nat.le_antisymm hroom hn
  · rw [if_neg htype]
    exact if_neg htype

theorem runs_sdscatlen (hwf : s.WellFormed) (hholds : heap.Holds base (s.block :: others))
    (hfar : s.len + t.length < 2 ^ 62) : Runs (sdscatlen m s t) heap (Appended m base others heap s t) := by
  unfold sdscatlen
  rw [Runs.bind_iff]
  apply (runs_makeRoom hwf hholds hfar).mono
  intro r heap₁ hr
  cases r with
  | none => exact Runs.pure_iff.mpr hr
  | some s' =>
      obtain ⟨hroomy, hholds₁, hpaid⟩ := hr
      obtain ⟨hwf', htext, hlen, hroom⟩ := hroomy
      have hin : s.len + t.length ≤ s'.buf.length := Nat.le_of_lt (Nat.lt_of_le_of_lt hroom hwf'.room)
      simp only [sdslen, Runs.bind_iff]
      apply runs_copy hin
      have hlength := length_written hin
      have hprefix := take_written hin
      generalize s'.buf.take s.len ++ _ = buf at hlength hprefix ⊢
      obtain ⟨hnewlen, hcapacity⟩ := setlen_capacity buf hwf' (by omega) hroom
      generalize hnew : sdssetlen { s' with buf } (s.len + t.length) = s₂ at hnewlen hcapacity ⊢
      have htype : s₂.type = s'.type := by rw [← hnew]; rfl
      have hbuf : s₂.buf = buf := by rw [← hnew]; rfl
      have hblock : s₂.block = s'.block := by rw [← hnew]; rfl
      rw [← hnewlen]
      apply runs_terminate
      · rw [hnewlen, hcapacity]
        exact hroom
      · rw [hcapacity, htype]
        exact hwf'.fits
      · rw [hcapacity, hbuf, hlength]
        exact hwf'.room
      · intro s₃ hwf₃ htext₃ hlen₃ hcapacity₃ hblock₃
        rw [Runs.pure_iff]
        refine ⟨hwf₃, ?_, ?_, ?_⟩
        · have hold : s'.buf.take s.len = s.text := by
            rw [← htext, Sdshdr.text, hlen]
          rw [htext₃, Sdshdr.text, hnewlen, hbuf, hprefix, hold]
        · rw [hblock₃, hblock]
          exact hholds₁
        · exact hpaid.of_capacity (hcapacity₃.trans hcapacity)

end Tle.Sds
