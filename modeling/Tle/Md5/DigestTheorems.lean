import Tle.Accounts.PasswordTheorems
import Tle.Md5.Lemmas.Update

/-!
# The digest of a message, and the passwords that are stored with it
-/

namespace Tle.Md5
open Tle.Lib Tle.Accounts

variable {w : Nat} {ctx : Context w} {msg : List Byte}

/-! ## What a digest is -/

/-- A one bit, and zeros until 56 bytes of a block are full. -/
def pad (n : Nat) : List Byte := 0x80 :: List.replicate (if n % 64 < 56 then 55 - n % 64 else 119 - n % 64) 0

/-- The words of all blocks of the padded message, of which the last ends with the number of bits. -/
def digestOf (w : Nat) (msg : List Byte) : List Byte :=
  let padded := msg ++ pad msg.length
  store (transform ((blocks 64 padded).foldl work (start : Words w)) fun i =>
    if i.val < 14 then blockWord (remainder 64 padded) i
    else BitVec.ofNat w (if i.val = 14 then 8 * msg.length else 8 * msg.length / 2 ^ w))

/-! ## `MD5Final` -/

theorem take_padding {n : Nat} (hn : n < 64) :
    padding.take (if n < 56 then 56 - n else 120 - n) =
      0x80 :: List.replicate (if n < 56 then 55 - n else 119 - n) 0 := by
  obtain ⟨k, hk, hle⟩ : ∃ k, (if n < 56 then 55 - n else 119 - n) = k ∧ k ≤ 63 := ⟨_, rfl, by split <;> omega⟩
  have hlength : (if n < 56 then 56 - n else 120 - n) = k + 1 := by
    rw [← hk]
    split <;> omega
  rw [hk, hlength, padding, List.take_succ_cons, List.take_replicate, Nat.min_eq_left hle]

theorem update_padding (hw : 32 ≤ w) (hreached : Reached ctx msg) :
    Reached (md5Update ctx padding (BitVec.ofNat 32 (if (mdi ctx).val < 56 then 56 - (mdi ctx).val
      else 120 - (mdi ctx).val))) (msg ++ pad msg.length) := by
  have hmdi := mdi_of_count hw hreached.i0
  have hpad := take_padding (n := msg.length % 64) (Nat.mod_lt _ (by decide))
  rw [hmdi]
  generalize hn : (if msg.length % 64 < 56 then 56 - msg.length % 64 else 120 - msg.length % 64) = n at hpad ⊢
  have hle : n ≤ 64 := by
    rw [← hn]
    split <;> omega
  have hlength : (padding.take n).length = n := by
    rw [List.length_take, padding, List.length_cons, List.length_replicate]
    omega
  have hsame : md5Update ctx padding (BitVec.ofNat 32 n) =
      md5Update ctx (padding.take n) (BitVec.ofNat 32 (padding.take n).length) := by
    have hnat : (BitVec.ofNat 32 n).toNat = n := by
      rw [BitVec.toNat_ofNat, Nat.mod_eq_of_lt (by omega)]
    rw [hlength, md5Update, md5Update, hnat, List.take_take, Nat.min_self]
  have hshort : (padding.take n).length < 2 ^ 29 := by omega
  have hafter := hreached.update hw hshort
  rw [hsame, pad, ← hpad]
  exact hafter

theorem length_pad (n : Nat) : (n + (pad n).length) % 64 = 56 := by
  have hsplit := Nat.div_add_mod n 64
  rw [pad, List.length_cons, List.length_replicate]
  split <;> omega

theorem digest_final (hw : 32 ≤ w) (hreached : Reached ctx msg) : (md5Final ctx).digest = digestOf w msg := by
  obtain ⟨hi0, hi1, hbuf, hmdi, hinput⟩ := update_padding hw hreached
  have hrest : (remainder 64 (msg ++ pad msg.length)).length = 56 := by
    rw [length_remainder, List.length_append, length_pad]
  rw [hmdi, hrest] at hinput
  have hblock : lastBlock (md5Update ctx padding (BitVec.ofNat 32 (if (mdi ctx).val < 56 then 56 - (mdi ctx).val
      else 120 - (mdi ctx).val))).input ctx.i0 ctx.i1 = fun i =>
        if i.val < 14 then blockWord (remainder 64 (msg ++ pad msg.length)) i
        else BitVec.ofNat w (if i.val = 14 then 8 * msg.length else 8 * msg.length / 2 ^ w) := by
    funext i
    rw [lastBlock, hreached.i0, hreached.i1]
    split
    · rw [word_eq (n := 56) _ (by omega), hinput]
    · split <;> rfl
  have hfinal : (md5Final ctx).digest = store (transform (md5Update ctx padding (BitVec.ofNat 32
      (if (mdi ctx).val < 56 then 56 - (mdi ctx).val else 120 - (mdi ctx).val))).buf
        (lastBlock (md5Update ctx padding (BitVec.ofNat 32 (if (mdi ctx).val < 56 then 56 - (mdi ctx).val
          else 120 - (mdi ctx).val))).input ctx.i0 ctx.i1)) := rfl
  rw [hfinal, hblock, hbuf]
  rfl

/-- However a message is cut into chunks, and whatever the context held before: what `MD5Final` stores is the
digest of the message. -/
theorem digest_chunks (w : Nat) (hw : 32 ≤ w) (ctx : Context w) (chunks : List (List Byte))
    (hchunks : ∀ c ∈ chunks, c.length < 2 ^ 29) :
    (md5Final (chunks.foldl (fun ctx c => md5Update ctx c (BitVec.ofNat 32 c.length)) (md5Init ctx))).digest =
      digestOf w chunks.flatten := by
  have hreached : ∀ (ctx : Context w) (msg : List Byte), Reached ctx msg → ∀ chunks : List (List Byte),
      (∀ c ∈ chunks, c.length < 2 ^ 29) →
      Reached (chunks.foldl (fun ctx c => md5Update ctx c (BitVec.ofNat 32 c.length)) ctx)
        (msg ++ chunks.flatten) := by
    intro ctx msg hreached chunks hchunks
    induction chunks generalizing ctx msg with
    | nil => simpa using hreached
    | cons c chunks ih =>
        rw [List.forall_mem_cons] at hchunks
        rw [List.foldl_cons, List.flatten_cons, ← List.append_assoc]
        exact ih _ _ (hreached.update hw hchunks.1) hchunks.2
  exact digest_final hw (hreached (md5Init ctx) [] (reached_init hw ctx) chunks hchunks)

def garbage : Context 32 :=
  { i0 := 7, i1 := 7, buf := ⟨1, 2, 3, 4⟩, input := Vector.replicate 64 9, digest := [] }

theorem digest_chunks_garbage : (md5Final ([[112, 97], [], [115, 115]].foldl
    (fun ctx c => md5Update ctx c (BitVec.ofNat 32 c.length)) (md5Init garbage))).digest =
      digestOf 32 [112, 97, 115, 115] :=
  digest_chunks 32 (by decide) garbage [[112, 97], [], [115, 115]] (by decide)

end Tle.Md5
