import Mathlib.Algebra.Order.Ring.Nat
import Tle.Grade.TokenBuffer
import Tle.Grade.Lemmas.Tokens

/-!
# What the buffer holds

A buffer of `256 * 2 ^ k` bytes is doubled by the byte that fills it. `2 ^ 30` is the largest capacity that an `int`
can double no more.
-/

namespace Tle.Grade.Buffered
open Tle.Lib

variable {heap : Heap} {b b' : TokenBuffer} {t : Text} {k n hi : Nat} {ch next : Char} {fp : Text} {e : Fault}

/-- The bytes of the block after `k` doublings. -/
def size (k : Nat) : Nat := 256 * 2 ^ k

/-- The buffer with the bytes `t`, in the smallest block with room for one more. -/
structure Holds (b : TokenBuffer) (t : Text) (k : Nat) : Prop where
  token : ∃ bytes, b.token = some bytes ∧ bytes.length = size k ∧ bytes.take t.length = t
  idx : b.idx = t.length
  capacity : b.capacity = size k
  room : t.length < size k
  least : k = 0 ∨ size k ≤ 2 * t.length
  small : k ≤ 22

/-- A block of `size k` bytes can be doubled. -/
def Doubles (heap : Heap) (k : Nat) : Prop := k < 22 ∧ heap.Grants (size (k + 1))

/-- All the doublings from `n` bytes on to `hi` bytes succeed. -/
def Grows (heap : Heap) (n hi : Nat) : Prop := ∀ k, n < size k → size k ≤ hi → Doubles heap k

theorem size_succ (k : Nat) : size (k + 1) = 2 * size k := by
  rw [size, size, Nat.pow_succ]
  omega

theorem size_mono {i j : Nat} (h : i ≤ j) : size i ≤ size j :=
  Nat.mul_le_mul_left 256 (Nat.pow_le_pow_right (by omega) h)

theorem size_pos (k : Nat) : 0 < size k := Nat.mul_pos (by omega) (Nat.two_pow_pos k)

theorem lt_of_size_lt {i j : Nat} (h : size i < size j) : i < j := by
  by_contra hle
  have hsize := size_mono (Nat.le_of_not_lt hle)
  omega

theorem size_le_int (h : k ≤ 22) : size k ≤ 2 ^ 30 := size_mono h

theorem int32_double (h : k < 22) : int32 ((size k : Int) * 2) = .ok (size (k + 1) : Nat) := by
  have hint : size (k + 1) ≤ 2 ^ 30 := size_le_int (Nat.succ_le_of_lt h)
  have heq : (size k : Int) * 2 = (size (k + 1) : Nat) := by
    have hsucc := size_succ k
    omega
  rw [heq]
  apply int32_of_fits
  · omega
  · omega

/-! ## One byte -/

theorem push_of_none (htoken : b.token = none) : b.push heap ch = .error .outOfBounds := by
  simp [TokenBuffer.push, htoken, Block.store_none, bind, Except.bind]

/-- The byte is stored, and the block is doubled where it was the last one of the block. -/
theorem push_stored (heap : Heap) (ch : Char) (h : Holds b t k) : ∃ bytes, bytes.length = size k ∧
    bytes.take (t.length + 1) = t ++ [ch] ∧ b.push heap ch =
      if t.length + 1 < size k then .ok { b with token := some bytes, idx := (t.length : Int) + 1 }
      else (int32 ((size k : Int) * 2)).bind fun capacity =>
        .ok { token := heap.realloc (some bytes) capacity.toNat, idx := (t.length : Int) + 1, capacity } := by
  obtain ⟨bytes, htoken, hlength, hbytes⟩ := h.token
  have hint := size_le_int h.small
  have hlt : t.length < bytes.length := hlength ▸ h.room
  have hidx : int32 ((t.length : Int) + 1) = .ok (t.length + 1) := int32_of_fits (by omega) (by omega)
  refine ⟨bytes.set t.length ch, by simp [hlength], by rw [take_succ_set hlt, hbytes], ?_⟩
  by_cases hroom : t.length + 1 < size k
  · have hfree : ¬(size k : Int) ≤ (t.length : Int) + 1 := by omega
    simp [TokenBuffer.push, htoken, h.idx, h.capacity, Block.store_of_lt hlt, hidx, hfree, hroom, bind, Except.bind,
      pure, Except.pure]
  · have hfilled : (size k : Int) ≤ (t.length : Int) + 1 := by omega
    cases hcapacity : int32 ((size k : Int) * 2) <;>
      simp [TokenBuffer.push, htoken, h.idx, h.capacity, Block.store_of_lt hlt, hidx, hfilled, hroom, hcapacity, bind,
        Except.bind, pure, Except.pure]

theorem push_of_room (heap : Heap) (ch : Char) (h : Holds b t k) (hroom : t.length + 1 < size k) :
    ∃ b', b.push heap ch = .ok b' ∧ Holds b' (t ++ [ch]) k := by
  obtain ⟨bytes, hlength, htake, hpush⟩ := push_stored heap ch h
  rw [if_pos hroom] at hpush
  have hleast := h.least
  exact ⟨_, hpush, {
    token := ⟨bytes, rfl, hlength, by simpa using htake⟩
    idx := by simp
    capacity := h.capacity
    room := by simpa using hroom
    least := by simp; omega
    small := h.small }⟩

/-- The byte that fills the block. -/
theorem push_of_full (ch : Char) (h : Holds b t k) (hfull : t.length + 1 = size k) (hdoubles : Doubles heap k) :
    ∃ b', b.push heap ch = .ok b' ∧ Holds b' (t ++ [ch]) (k + 1) := by
  obtain ⟨bytes, hlength, htake, hpush⟩ := push_stored heap ch h
  have hle : bytes.length ≤ size (k + 1) := by
    rw [hlength, size_succ]
    omega
  obtain ⟨rest, hrealloc, hrest⟩ := Heap.realloc_of_le hdoubles.2 hle
  rw [if_neg (by omega), int32_double hdoubles.1] at hpush
  have htake' : (bytes ++ rest).take (t.length + 1) = t ++ [ch] := by
    rw [List.take_append_of_le_length (by omega), htake]
  exact ⟨_, hpush, {
    token := ⟨bytes ++ rest, hrealloc, hrest, by simpa using htake'⟩
    idx := by simp
    capacity := rfl
    room := by simp [size_succ]; omega
    least := by simp [size_succ]; omega
    small := hdoubles.1 }⟩

/-- Where the block cannot be doubled, its capacity overflows or the block is lost. -/
theorem push_of_stuck (h : Holds b t k) (hfull : t.length + 1 = size k) (hstuck : ¬Doubles heap k) :
    (∃ e, b.push heap ch = .error e) ∨ ∃ b', b.push heap ch = .ok b' ∧ b'.token = none := by
  obtain ⟨bytes, -, -, hpush⟩ := push_stored heap ch h
  rw [if_neg (by omega)] at hpush
  by_cases hk : k < 22
  · have hrefused : ¬heap.Grants (size (k + 1)) := fun hgrants => hstuck ⟨hk, hgrants⟩
    rw [int32_double hk] at hpush
    exact Or.inr ⟨_, hpush, Heap.realloc_of_not hrefused (some bytes)⟩
  · have heq : k = 22 := Nat.le_antisymm h.small (Nat.le_of_not_lt hk)
    have hcapacity : int32 ((size k : Int) * 2) = .error .overflow := by
      apply int32_of_large
      rw [heq, size]
      omega
    rw [hcapacity] at hpush
    exact Or.inl ⟨.overflow, hpush⟩

/-! ## The doublings -/

theorem grows_self : Grows heap n n := by
  intro k hlt hle
  omega

/-- The doublings from `n` bytes on are the one at the next byte and those after it. -/
theorem grows_iff (h : n + 1 ≤ hi) :
    Grows heap n hi ↔ (∀ k, size k = n + 1 → Doubles heap k) ∧ Grows heap (n + 1) hi := by
  constructor
  · intro hgrows
    constructor
    · intro k hk
      exact hgrows k (by omega) (by omega)
    · intro k hlt hle
      exact hgrows k (by omega) hle
  · intro hgrows k hlt hle
    by_cases hk : size k = n + 1
    · exact hgrows.1 k hk
    · exact hgrows.2 k (by omega) hle

theorem size_ne_of_room (h : Holds b t k) (hroom : t.length + 1 < size k) (j : Nat) : size j ≠ t.length + 1 := by
  intro hj
  have hjk : j < k := lt_of_size_lt (hj ▸ hroom)
  have hle : size (j + 1) ≤ size k := size_mono hjk
  have hsucc := size_succ j
  have hleast := h.least
  omega

theorem eq_of_size_eq {j : Nat} (h : size j = size k) : j = k := by
  rcases Nat.lt_trichotomy j k with hlt | heq | hlt
  · have hle : size (j + 1) ≤ size k := size_mono hlt
    have hsucc := size_succ j
    have hpos := size_pos j
    omega
  · exact heq
  · have hle : size (k + 1) ≤ size j := size_mono hlt
    have hsucc := size_succ k
    have hpos := size_pos k
    omega

theorem grows_step (h : Holds b t k) (hhi : t.length + 1 ≤ hi) :
    Grows heap t.length hi ↔ (t.length + 1 = size k → Doubles heap k) ∧ Grows heap (t.length + 1) hi := by
  rw [grows_iff hhi]
  have hfirst : (∀ j, size j = t.length + 1 → Doubles heap j) ↔ (t.length + 1 = size k → Doubles heap k) := by
    constructor
    · intro hall heq
      exact hall k heq.symm
    · intro hk j hj
      by_cases hroom : t.length + 1 < size k
      · exact absurd hj (size_ne_of_room h hroom j)
      · have hfull : t.length + 1 = size k := by
          have hlt := h.room
          omega
        rw [eq_of_size_eq (hj.trans hfull)]
        exact hk hfull
  rw [hfirst]

/-- One byte, by whether its doubling succeeds. -/
theorem push_cases (heap : Heap) (ch : Char) (h : Holds b t k) :
    (∃ b' k', b.push heap ch = .ok b' ∧ Holds b' (t ++ [ch]) k' ∧ (t.length + 1 = size k → Doubles heap k)) ∨
    ((∃ e, b.push heap ch = .error e) ∨ ∃ b', b.push heap ch = .ok b' ∧ b'.token = none) ∧
      ¬(t.length + 1 = size k → Doubles heap k) := by
  by_cases hroom : t.length + 1 < size k
  · obtain ⟨b', hpush, hholds⟩ := push_of_room heap ch h hroom
    exact Or.inl ⟨b', k, hpush, hholds, fun heq => by omega⟩
  · have hfull : t.length + 1 = size k := by
      have hlt := h.room
      omega
    by_cases hdoubles : Doubles heap k
    · obtain ⟨b', hpush, hholds⟩ := push_of_full ch h hfull hdoubles
      exact Or.inl ⟨b', k + 1, hpush, hholds, fun _ => hdoubles⟩
    · exact Or.inr ⟨push_of_stuck h hfull hdoubles, fun hall => hdoubles (hall hfull)⟩

/-! ## A token -/

section Fill

theorem fill_nil : b.fill heap ch [] = (b.push heap ch).bind fun b => .ok (b, []) := rfl

theorem fill_cons (next : Char) (fp : Text) : b.fill heap ch (next :: fp) = (b.push heap ch).bind fun b =>
    if isWhitespace next then .ok (b, fp) else b.fill heap next fp := rfl

theorem fill_of_error (h : b.push heap ch = .error e) : b.fill heap ch fp = .error e := by
  cases fp with
  | nil => simp [fill_nil, h, Except.bind]
  | cons next fp => simp [fill_cons, h, Except.bind]

/-- Without a block nothing is read. -/
theorem fill_of_none (h : b.token = none) : b.fill heap ch fp = .error .outOfBounds :=
  fill_of_error (push_of_none h)

theorem fill_end (h : b.push heap ch = .ok b') : b.fill heap ch [] = .ok (b', []) := by
  simp [fill_nil, h, Except.bind]

theorem fill_white (h : b.push heap ch = .ok b') (hnext : isWhitespace next = true) :
    b.fill heap ch (next :: fp) = .ok (b', fp) := by
  simp [fill_cons, h, hnext, Except.bind]

theorem fill_other (h : b.push heap ch = .ok b') (hnext : isWhitespace next = false) :
    b.fill heap ch (next :: fp) = b'.fill heap next fp := by
  simp [fill_cons, h, hnext, Except.bind]

theorem readToken_white (h : isWhitespace next = true) (fp : Text) : readToken (next :: fp) = ([], fp) := by
  simp [readToken, h]

theorem readToken_other (h : isWhitespace next = false) (fp : Text) :
    readToken (next :: fp) = (next :: (readToken fp).1, (readToken fp).2) := by
  simp [readToken, h]

/-- Where all doublings succeed the token is read. -/
theorem fill_of_grows (h : Holds b t k) (hgrows : Grows heap t.length (t.length + 1 + (readToken fp).1.length)) :
    ∃ b' k', b.fill heap ch fp = .ok (b', (readToken fp).2) ∧ Holds b' (t ++ ch :: (readToken fp).1) k' := by
  induction fp generalizing b t k ch with
  | nil =>
      have hstep := ((grows_step h (by omega)).mp hgrows).1
      obtain ⟨b', k', hpush, hholds, -⟩ | ⟨-, hno⟩ := push_cases heap ch h
      · exact ⟨b', k', fill_end hpush, hholds⟩
      · exact absurd hstep hno
  | cons next fp ih =>
      have hstep := (grows_step h (by omega)).mp hgrows
      obtain ⟨b', k', hpush, hholds, -⟩ | ⟨-, hno⟩ := push_cases heap ch h
      · cases hnext : isWhitespace next with
        | true =>
            rw [readToken_white hnext, fill_white hpush hnext]
            exact ⟨b', k', rfl, hholds⟩
        | false =>
            rw [readToken_other hnext] at hstep
            have hlength : (t ++ [ch]).length = t.length + 1 := by simp
            have hrest : Grows heap (t ++ [ch]).length ((t ++ [ch]).length + 1 + (readToken fp).1.length) := by
              rw [hlength, Nat.add_assoc (t.length + 1), Nat.add_comm 1]
              exact hstep.2
            obtain ⟨b'', k'', hfill, hholds'⟩ := ih hholds hrest
            rw [readToken_other hnext, fill_other hpush hnext]
            refine ⟨b'', k'', hfill, ?_⟩
            simpa using hholds'
      · exact absurd hstep.1 hno

/-- Where a doubling fails the block is lost, if the function goes on at all. -/
theorem fill_of_stuck (h : Holds b t k) (hstuck : ¬Grows heap t.length (t.length + 1 + (readToken fp).1.length)) :
    (∃ e, b.fill heap ch fp = .error e) ∨ ∃ b' rest, b.fill heap ch fp = .ok (b', rest) ∧ b'.token = none := by
  induction fp generalizing b t k ch with
  | nil =>
      obtain ⟨b', k', hpush, hholds, hno⟩ | ⟨⟨e, hpush⟩ | ⟨b', hpush, hnone⟩, -⟩ := push_cases heap ch h
      · exact absurd ((grows_step h (by omega)).mpr ⟨hno, grows_self⟩) hstuck
      · exact Or.inl ⟨e, fill_of_error hpush⟩
      · exact Or.inr ⟨b', [], fill_end hpush, hnone⟩
  | cons next fp ih =>
      obtain ⟨b', k', hpush, hholds, hno⟩ | ⟨⟨e, hpush⟩ | ⟨b', hpush, hnone⟩, -⟩ := push_cases heap ch h
      · cases hnext : isWhitespace next with
        | true =>
            rw [readToken_white hnext] at hstuck
            exact absurd ((grows_step h (by omega)).mpr ⟨hno, grows_self⟩) hstuck
        | false =>
            rw [readToken_other hnext] at hstuck
            rw [fill_other hpush hnext]
            apply ih hholds
            intro hrest
            apply hstuck
            have hlength : (t ++ [ch]).length = t.length + 1 := by simp
            rw [hlength, Nat.add_assoc (t.length + 1), Nat.add_comm 1] at hrest
            exact (grows_step h (by omega)).mpr ⟨hno, hrest⟩
      · exact Or.inl ⟨e, fill_of_error hpush⟩
      · cases hnext : isWhitespace next with
        | true => exact Or.inr ⟨b', fp, fill_white hpush hnext, hnone⟩
        | false =>
            rw [fill_other hpush hnext]
            exact Or.inl ⟨.outOfBounds, fill_of_none hnone⟩

end Fill

/-! ## The whole function -/

theorem start_holds {bytes : Text} (h : heap.grant 256 = some bytes) : Holds (TokenBuffer.start heap) [] 0 where
  token := ⟨bytes, h, heap.length_grant 256 bytes h, rfl⟩
  idx := rfl
  capacity := rfl
  room := size_pos 0
  least := Or.inl rfl
  small := Nat.zero_le 22

/-- The block is there, and is doubled as often as a token of `n` bytes asks for. -/
def Fits (heap : Heap) (n : Nat) : Prop := heap.Grants 256 ∧ Grows heap 0 n

/-- A token has fewer than `2 ^ 30` bytes, and the blocks for it are granted. -/
theorem fits_iff : Fits heap n ↔
    (n < 2 ^ 30 ∧ heap.Grants 256 ∧ ∀ k, 256 * 2 ^ k ≤ n → heap.Grants (256 * 2 ^ (k + 1))) := by
  constructor
  · intro h
    refine ⟨?_, h.1, ?_⟩
    · by_contra hlarge
      have hfull := h.2 22 (size_pos 22) (by rw [size]; omega)
      exact absurd hfull.1 (by omega)
    · intro k hk
      exact (h.2 k (size_pos k) hk).2
  · intro h
    refine ⟨h.2.1, fun k _ hk => ⟨?_, h.2.2 k hk⟩⟩
    by_contra hlarge
    have hsize : size 22 ≤ size k := size_mono (Nat.le_of_not_lt hlarge)
    rw [size] at hsize
    omega

/-- A token that is read starts behind the white space. -/
theorem skipWhitespace_of_token {tok rest : Text} (h : Grade.getNextToken fp = (some tok, rest)) :
    ∃ ch fp', skipWhitespace fp = some (ch, fp') ∧ tok = ch :: (readToken fp').1 ∧ rest = (readToken fp').2 := by
  unfold Grade.getNextToken at h
  cases hskip : skipWhitespace fp with
  | none => simp [hskip] at h
  | some first =>
      obtain ⟨ch, fp'⟩ := first
      simp only [hskip, Prod.mk.injEq, Option.some.injEq] at h
      exact ⟨ch, fp', rfl, h.1.symm, h.2.symm⟩

theorem grows_start {fp' : Text} : Grows heap 0 (ch :: (readToken fp').1).length ↔
    Grows heap ([] : Text).length (([] : Text).length + 1 + (readToken fp').1.length) := by
  rw [List.length_cons, List.length_nil, Nat.zero_add, Nat.add_comm]

/-- The token in the buffer is the one that the function without a buffer returns. -/
theorem getNextToken_of_fits {tok rest : Text} (h : Grade.getNextToken fp = (some tok, rest))
    (hfits : Fits heap tok.length) :
    ∃ block, getNextToken heap fp = .ok (some block, rest) ∧ cstr block = tok := by
  have hclean := (getNextToken_some h).2
  obtain ⟨ch, fp', hskip, rfl, rfl⟩ := skipWhitespace_of_token h
  obtain ⟨bytes, hbytes⟩ := hfits.1
  obtain ⟨b, k, hfill, hholds⟩ := fill_of_grows (start_holds hbytes) (grows_start.mp hfits.2)
  obtain ⟨block, htoken, hlength, htake⟩ := hholds.token
  rw [List.nil_append] at hholds htake
  have hlt : (ch :: (readToken fp').1).length < block.length := hlength ▸ hholds.room
  refine ⟨block.set (ch :: (readToken fp').1).length '\x00', ?_, ?_⟩
  · simp only [getNextToken, hskip, hfill, bind, Except.bind, htoken, hholds.idx, Block.store_of_lt hlt, pure,
      Except.pure]
  · have hset := take_succ_set (c := '\x00') hlt
    rw [← List.take_append_drop ((ch :: (readToken fp').1).length + 1) (block.set _ _), hset, htake,
      List.append_assoc]
    have hnul : '\x00' ∉ ch :: (readToken fp').1 := fun hmem => by simpa [isWhitespace] using hclean _ hmem
    rw [cstr_append_of_not_mem hnul, List.singleton_append, cstr_nul, List.append_nil]

theorem getNextToken_of_not_fits {tok rest : Text} (h : Grade.getNextToken fp = (some tok, rest))
    (hfits : ¬Fits heap tok.length) : ∃ e, getNextToken heap fp = .error e := by
  obtain ⟨ch, fp', hskip, rfl, rfl⟩ := skipWhitespace_of_token h
  cases hgrant : heap.grant 256 with
  | none =>
      have hnone : (TokenBuffer.start heap).token = none := hgrant
      refine ⟨.outOfBounds, ?_⟩
      simp only [getNextToken, hskip, fill_of_none hnone, bind, Except.bind]
  | some bytes =>
      have hstuck : ¬Grows heap ([] : Text).length (([] : Text).length + 1 + (readToken fp').1.length) := by
        intro hgrows
        exact hfits ⟨⟨bytes, hgrant⟩, grows_start.mpr hgrows⟩
      obtain ⟨e, hfill⟩ | ⟨b, left, hfill, hnone⟩ := @fill_of_stuck heap _ _ _ ch fp' (start_holds hgrant) hstuck
      · exact ⟨e, by simp only [getNextToken, hskip, hfill, bind, Except.bind]⟩
      · refine ⟨.outOfBounds, ?_⟩
        simp only [getNextToken, hskip, hfill, hnone, Block.store_none, bind, Except.bind]

theorem getNextToken_of_none {rest : Text} (h : Grade.getNextToken fp = (none, rest)) :
    getNextToken heap fp = .ok (none, rest) := by
  unfold Grade.getNextToken at h
  cases hskip : skipWhitespace fp with
  | none =>
      simp only [hskip, Prod.mk.injEq, true_and] at h
      simp only [getNextToken, hskip, h]
  | some first => simp [hskip] at h

end Tle.Grade.Buffered
