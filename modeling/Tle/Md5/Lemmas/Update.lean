import Mathlib.Data.Nat.Bitwise
import Tle.Lib.Blocks
import Tle.Md5.Digest

/-!
# What `MD5Update` does to a context
-/

namespace Tle.Md5
open Tle.Lib

variable {w : Nat} {ctx : Context w} {p : Context w × Fin 64} {q : Words w × List Byte} {byte : Byte}
  {msg chunk : List Byte}

/-! ## Blocks -/

/-- A word of a block that stands in a list. -/
def blockWord (block : List Byte) (i : Fin 16) : BitVec w :=
  ((block.getD (4 * i.val + 3) 0).setWidth w <<< 24) ||| ((block.getD (4 * i.val + 2) 0).setWidth w <<< 16) |||
    ((block.getD (4 * i.val + 1) 0).setWidth w <<< 8) ||| (block.getD (4 * i.val) 0).setWidth w

def work (buf : Words w) (block : List Byte) : Words w := transform buf (blockWord block)

def start : Words w where
  a := 0x67452301
  b := 0xefcdab89
  c := 0x98badcfe
  d := 0x10325476

/-- The words that lie within the first bytes of the array. -/
theorem word_eq (input : Vector Byte 64) {n : Nat} {i : Fin 16} (hi : 4 * i.val + 3 < n) :
    word (w := w) input i = blockWord (input.toList.take n) i := by
  have hget : ∀ k (hk : k < 64), k < n → (input.toList.take n).getD k 0 = input[k] := by
    intro k hk hkn
    rw [List.getD_eq_getElem?_getD, List.getElem?_take_of_lt hkn, List.getElem?_eq_getElem (by simpa using hk)]
    simp
  have hlt := i.isLt
  rw [word, blockWord, hget _ (by omega) hi, hget _ (by omega) (by omega), hget _ (by omega) (by omega),
    hget _ (by omega) (by omega)]

/-! ## One byte -/

/-- The array starts with the bytes that wait for the rest of their block. -/
structure Waiting (p : Context w × Fin 64) (q : Words w × List Byte) : Prop where
  buf : p.1.buf = q.1
  mdi : p.2.val = q.2.length
  input : p.1.input.toList.take p.2.val = q.2

theorem take_set_succ {l : List Byte} {n : Nat} (hn : n < l.length) (byte : Byte) :
    (l.set n byte).take (n + 1) = l.take n ++ [byte] := by
  rw [List.set_eq_take_append_cons_drop, if_pos hn, List.take_append]
  simp [Nat.le_of_lt hn]

theorem Waiting.put (hwaiting : Waiting p q) (byte : Byte) :
    Waiting (Md5.put p byte) (absorb 64 work q byte) ∧ (Md5.put p byte).1.i0 = p.1.i0 ∧
      (Md5.put p byte).1.i1 = p.1.i1 := by
  obtain ⟨hbuf, hmdi, hinput⟩ := hwaiting
  have hset : (p.1.input.set p.2 byte).toList.take (p.2.val + 1) = q.2 ++ [byte] := by
    rw [Vector.toList_set, take_set_succ (by simp), hinput]
  unfold Md5.put absorb
  rw [← hmdi]
  dsimp only
  split
  · rename_i hroom
    rw [if_neg (Nat.ne_of_lt hroom)]
    exact ⟨⟨hbuf, by simp [hmdi], hset⟩, rfl, rfl⟩
  · rename_i hfull
    have hlast : p.2.val + 1 = 64 := by
      have hlt := p.2.isLt
      omega
    rw [if_pos hlast]
    refine ⟨⟨?_, rfl, rfl⟩, rfl, rfl⟩
    have hwords : word (w := w) (p.1.input.set p.2 byte) = blockWord (q.2 ++ [byte]) := by
      funext i
      have hlt := i.isLt
      rw [← hset, hlast, word_eq _ (n := 64) (by omega)]
    simp only [work, hwords, hbuf]

theorem Waiting.foldl (hwaiting : Waiting p q) (chunk : List Byte) :
    Waiting (chunk.foldl Md5.put p) (chunk.foldl (absorb 64 work) q) ∧ (chunk.foldl Md5.put p).1.i0 = p.1.i0 ∧
      (chunk.foldl Md5.put p).1.i1 = p.1.i1 := by
  induction chunk generalizing p q with
  | nil => exact ⟨hwaiting, rfl, rfl⟩
  | cons byte chunk ih =>
      obtain ⟨hnext, hi0, hi1⟩ := hwaiting.put byte
      obtain ⟨hrest, hi0', hi1'⟩ := ih hnext
      exact ⟨hrest, hi0'.trans hi0, hi1'.trans hi1⟩

/-! ## The count of the bits -/

theorem mdi_of_count (hw : 32 ≤ w) {n : Nat} (hcount : ctx.i0 = BitVec.ofNat w (8 * n)) : (mdi ctx).val = n % 64 := by
  obtain ⟨v, rfl⟩ := Nat.exists_eq_add_of_le hw
  have hmask : (0x3F : BitVec (32 + v)).toNat = 2 ^ 6 - 1 := by
    have hlt : 63 < 2 ^ (32 + v) := Nat.lt_of_lt_of_le (by decide) (Nat.pow_le_pow_right (by decide) hw)
    exact Nat.mod_eq_of_lt hlt
  have hpow : 2 ^ (32 + v) = 8 * (64 * 2 ^ (23 + v)) := by
    rw [show 32 + v = 9 + (23 + v) by omega, Nat.pow_add]
    omega
  have hvalue : (mdi ctx).val = ((ctx.i0 >>> 3) &&& 0x3F).toNat := rfl
  rw [hvalue, BitVec.toNat_and, hmask, Nat.and_two_pow_sub_one_eq_mod, BitVec.toNat_ushiftRight,
    Nat.shiftRight_eq_div_pow, hcount, BitVec.toNat_ofNat, hpow, Nat.mul_mod_mul_left,
    Nat.mul_div_cancel_left _ (by decide), Nat.mod_mul_right_mod]

theorem count_add (hw : 32 ≤ w) {n m : Nat} (hm : m < 2 ^ 29) :
    BitVec.ofNat w (8 * n) + (BitVec.ofNat 32 m).setWidth w <<< 3 = BitVec.ofNat w (8 * (n + m)) ∧
      (if BitVec.ofNat w (8 * n) + (BitVec.ofNat 32 m).setWidth w <<< 3 < BitVec.ofNat w (8 * n) then
          BitVec.ofNat w (8 * n / 2 ^ w) + 1
        else BitVec.ofNat w (8 * n / 2 ^ w)) + ((BitVec.ofNat 32 m).setWidth w >>> 29) =
        BitVec.ofNat w (8 * (n + m) / 2 ^ w) := by
  have hpow : 2 ^ 32 ≤ 2 ^ w := Nat.pow_le_pow_right (by decide) hw
  have hlen : (BitVec.ofNat 32 m).setWidth w = BitVec.ofNat w m := by
    apply BitVec.eq_of_toNat_eq
    rw [BitVec.toNat_setWidth, BitVec.toNat_ofNat, BitVec.toNat_ofNat, Nat.mod_eq_of_lt (show m < 2 ^ 32 by omega)]
  have hbits : BitVec.ofNat w m <<< 3 = BitVec.ofNat w (8 * m) := by
    apply BitVec.eq_of_toNat_eq
    rw [BitVec.toNat_shiftLeft, BitVec.toNat_ofNat, BitVec.toNat_ofNat, Nat.shiftLeft_eq, Nat.mod_mul_mod]
    congr 1
    omega
  have hshift : BitVec.ofNat w m >>> 29 = BitVec.ofNat w 0 := by
    apply BitVec.eq_of_toNat_eq
    rw [BitVec.toNat_ushiftRight, BitVec.toNat_ofNat, Nat.mod_eq_of_lt (by omega), Nat.shiftRight_eq_div_pow,
      Nat.div_eq_of_lt hm, BitVec.toNat_ofNat, Nat.zero_mod]
  have hsum : BitVec.ofNat w (8 * n) + BitVec.ofNat w (8 * m) = BitVec.ofNat w (8 * (n + m)) := by
    rw [← BitVec.ofNat_add, Nat.mul_add]
  rw [hlen, hbits, hshift, hsum]
  refine ⟨rfl, ?_⟩
  have hsplit := Nat.div_add_mod (8 * n) (2 ^ w)
  have hmod := Nat.mod_lt (8 * n) (Nat.two_pow_pos w)
  have hless : BitVec.ofNat w (8 * (n + m)) < BitVec.ofNat w (8 * n) ↔
      8 * (n + m) % 2 ^ w < 8 * n % 2 ^ w := by
    rw [BitVec.lt_def, BitVec.toNat_ofNat, BitVec.toNat_ofNat]
  rw [if_congr hless rfl rfl, BitVec.add_zero]
  generalize hk : 8 * n / 2 ^ w = k, hr : 8 * n % 2 ^ w = r at hsplit hmod ⊢
  have htotal : 8 * (n + m) = r + 8 * m + 2 ^ w * k := by omega
  rw [htotal, Nat.add_mul_mod_self_left, Nat.add_mul_div_left _ _ (Nat.two_pow_pos w)]
  by_cases hcarry : r + 8 * m < 2 ^ w
  · rw [Nat.mod_eq_of_lt hcarry, if_neg (by omega), Nat.div_eq_of_lt hcarry, Nat.zero_add]
  · have hquotient : (r + 8 * m) / 2 ^ w = 1 := Nat.div_eq_of_lt_le (by omega) (by omega)
    have hmodulo : (r + 8 * m) % 2 ^ w = r + 8 * m - 2 ^ w := by
      rw [Nat.mod_eq_sub_mod (by omega), Nat.mod_eq_of_lt (by omega)]
    rw [hmodulo, if_pos (by omega), hquotient, Nat.add_comm 1 k, BitVec.ofNat_add]
    rfl

/-! ## The whole chunk -/

/-- The context after the bytes of a message. -/
structure Reached (ctx : Context w) (msg : List Byte) : Prop where
  i0 : ctx.i0 = BitVec.ofNat w (8 * msg.length)
  i1 : ctx.i1 = BitVec.ofNat w (8 * msg.length / 2 ^ w)
  waiting : Waiting (ctx, mdi ctx) ((blocks 64 msg).foldl work start, remainder 64 msg)

theorem reached_init (hw : 32 ≤ w) (ctx : Context w) : Reached (md5Init ctx) [] := by
  have hi0 : (md5Init ctx).i0 = BitVec.ofNat w (8 * ([] : List Byte).length) := rfl
  have hmdi : (mdi (md5Init ctx)).val = 0 := mdi_of_count hw hi0
  refine ⟨hi0, ?_, ?_⟩
  · simp [md5Init]
  · refine ⟨rfl, hmdi, ?_⟩
    rw [hmdi]
    rfl

theorem Reached.update (hw : 32 ≤ w) (hreached : Reached ctx msg) (hchunk : chunk.length < 2 ^ 29) :
    Reached (md5Update ctx chunk (BitVec.ofNat 32 chunk.length)) (msg ++ chunk) := by
  obtain ⟨hi0, hi1, hwaiting⟩ := hreached
  obtain ⟨hsum, hcarry⟩ := count_add hw (n := msg.length) hchunk
  have htake : chunk.take (BitVec.ofNat 32 chunk.length).toNat = chunk := by
    rw [BitVec.toNat_ofNat, Nat.mod_eq_of_lt (by omega), List.take_length]
  rw [← hi0, ← hi1] at hcarry
  rw [← hi0] at hsum
  rw [← List.length_append] at hsum hcarry
  obtain ⟨hrest, hrest0, hrest1⟩ := Waiting.foldl (p := ({ ctx with
    i0 := BitVec.ofNat w (8 * (msg ++ chunk).length)
    i1 := BitVec.ofNat w (8 * (msg ++ chunk).length / 2 ^ w) }, mdi ctx))
    ⟨hwaiting.buf, hwaiting.mdi, hwaiting.input⟩ chunk
  have hupdate : md5Update ctx chunk (BitVec.ofNat 32 chunk.length) = (chunk.foldl put ({ ctx with
      i0 := BitVec.ofNat w (8 * (msg ++ chunk).length)
      i1 := BitVec.ofNat w (8 * (msg ++ chunk).length / 2 ^ w) }, mdi ctx)).1 := by
    rw [md5Update, htake, hcarry, hsum]
  rw [← foldl_absorb (by decide), ← List.foldl_append, foldl_absorb (by decide)] at hrest
  rw [hupdate]
  refine ⟨hrest0, hrest1, ?_⟩
  have hmdi := mdi_of_count hw hrest0
  have hlength := length_remainder 64 (msg ++ chunk)
  refine ⟨hrest.buf, ?_, ?_⟩
  · rw [hmdi, hlength]
  · rw [hmdi, ← hlength, ← hrest.mdi]
    exact hrest.input

end Tle.Md5
