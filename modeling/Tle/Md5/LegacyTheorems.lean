import Tle.Md5.DigestTheorems

/-!
# Logging in with a password that is stored the old way
-/

namespace Tle.Md5
open Tle.Lib Tle.Accounts

variable {w : Nat} {ctx ctx' : Context w} {p q : CString} {byte byte' : Byte}

/-! ## The digits -/

def digits : Text := "0123456789abcdef".toList

theorem hexByte_eq (byte : Byte) : ∃ x y, hexByte byte = [x, y] ∧ digits[byte.toNat / 16]? = some x ∧
    digits[byte.toNat % 16]? = some y := by
  have hlt : byte.toNat / 16 < digits.length := by
    have hbyte := byte.isLt
    have hlength : digits.length = 16 := by decide
    omega
  have hlt' : byte.toNat % 16 < digits.length := Nat.mod_lt _ (by decide)
  refine ⟨digits[byte.toNat / 16], digits[byte.toNat % 16], ?_, List.getElem?_eq_getElem hlt,
    List.getElem?_eq_getElem hlt'⟩
  have hdigits : "0123456789abcdef".toList = digits := rfl
  simp only [hexByte, hdigits, List.getElem?_eq_getElem hlt, List.getElem?_eq_getElem hlt', Option.getD_some]

theorem mem_hexByte {c : Char} (hc : c ∈ hexByte byte) : c ∈ digits := by
  obtain ⟨x, y, heq, hx, hy⟩ := hexByte_eq byte
  rw [heq] at hc
  simp only [List.mem_cons, List.not_mem_nil, or_false] at hc
  rcases hc with rfl | rfl
  · exact List.mem_of_getElem? hx
  · exact List.mem_of_getElem? hy

theorem hexByte_injective (heq : hexByte byte = hexByte byte') : byte = byte' := by
  have hnodup : digits.Nodup := by decide
  obtain ⟨x, y, hbyte, hx, hy⟩ := hexByte_eq byte
  obtain ⟨x', y', hbyte', hx', hy'⟩ := hexByte_eq byte'
  rw [hbyte, hbyte'] at heq
  cases heq
  obtain ⟨hlt, -⟩ := List.getElem?_eq_some_iff.mp hx
  obtain ⟨hlt', -⟩ := List.getElem?_eq_some_iff.mp hy
  have hhigh := (List.getElem?_inj hlt hnodup).mp (hx.trans hx'.symm)
  have hlow := (List.getElem?_inj hlt' hnodup).mp (hy.trans hy'.symm)
  apply BitVec.eq_of_toNat_eq
  omega

theorem flatMap_hexByte_injective {bytes bytes' : List Byte} (hlength : bytes.length = bytes'.length)
    (heq : bytes.flatMap hexByte = bytes'.flatMap hexByte) : bytes = bytes' := by
  induction bytes generalizing bytes' with
  | nil => exact (List.eq_nil_of_length_eq_zero hlength.symm).symm
  | cons byte bytes ih =>
      cases bytes' with
      | nil => cases hlength
      | cons byte' bytes' =>
          rw [List.flatMap_cons, List.flatMap_cons] at heq
          obtain ⟨hhead, htail⟩ := List.append_inj heq rfl
          rw [hexByte_injective hhead, ih (Nat.succ.inj hlength) htail]

/-! ## `legacy_md5` -/

theorem length_digestOf (w : Nat) (msg : List Byte) : (digestOf w msg).length = 16 := rfl

theorem legacyMd5_eq (hw : 32 ≤ w) (ctx : Context w) (hp : p.text.length < 2 ^ 29) :
    legacyMd5 ctx p = (digestOf w (bytesOf p)).flatMap hexByte := by
  have hlength : (bytesOf p).length = p.text.length := List.length_map _
  have hshort : (bytesOf p).length < 2 ^ 29 := hlength ▸ hp
  have hreached := (reached_init hw ctx).update hw hshort
  rw [legacyMd5, md5String, ← hlength, digest_final hw hreached, List.nil_append]

theorem mem_legacyMd5 {c : Char} (hc : c ∈ legacyMd5 ctx p) : c ∈ digits := by
  rw [legacyMd5, md5String, List.mem_flatMap] at hc
  obtain ⟨byte, -, hc⟩ := hc
  exact mem_hexByte hc

theorem legacyMd5_inj (hw : 32 ≤ w) (hp : p.text.length < 2 ^ 29) (hq : q.text.length < 2 ^ 29) :
    legacyMd5 ctx q = legacyMd5 ctx' p ↔ digestOf w (bytesOf q) = digestOf w (bytesOf p) := by
  rw [legacyMd5_eq hw ctx hq, legacyMd5_eq hw ctx' hp]
  constructor
  · exact flatMap_hexByte_injective ((length_digestOf w _).trans (length_digestOf w _).symm)
  · intro heq
    rw [heq]

/-- The libraries with the digests of `md5.c`. -/
def hashesWith (crypt : CString → CString → Option CString) (ctx : Context w) : Hashes where
  crypt := crypt
  md5 p :=
    { text := legacyMd5 ctx p
      bytes := by
        have hbytes : isBytes digits = true := by decide
        exact fun c hc => isBytes_iff.mp hbytes c (mem_legacyMd5 hc) }

theorem isCrypt_of_legacy {stored : CString} (hstored : stored.text = legacyMd5 ctx p) : isCrypt stored = false := by
  have hdollar : '$' ∉ digits := by decide
  rw [Bool.eq_false_iff]
  intro hcrypt
  obtain ⟨rest, hrest⟩ := isCrypt_iff.mp hcrypt
  rw [hstored] at hrest
  have hmem : '$' ∈ legacyMd5 ctx p := by
    rw [← hrest]
    exact List.mem_append_left _ List.mem_cons_self
  exact hdollar (mem_legacyMd5 hmem)

/-- A user whose password is stored as its digest logs in with it, and with no password that has another digest.
What the contexts held before does not matter. When the password can be stored anew, it is, and for nobody else. -/
theorem legacy_login (w : Nat) (hw : 32 ≤ w) (crypt : CString → CString → Option CString) (ctx ctx' : Context w)
    (users : Users) (hfits : users.Fits) (row : UserRow) (hrow : row ∈ users.table.rows) (p q : CString)
    (hp : p.text.length < 2 ^ 29) (hq : q.text.length < 2 ^ 29) (hstored : row.hashedPassword.text = legacyMd5 ctx' p)
    (c : AuthCall) (hprepare : c.prepare_ok = true) (hstep : c.step_ok = true) (husername : c.username = some row.username)
    (hpassword : c.password = some q) :
    ((userValidAuth (hashesWith crypt ctx) users c).2 = if digestOf w (bytesOf q) = digestOf w (bytesOf p) then 1
      else 0) ∧
    ∀ k, (userValidAuth (hashesWith crypt ctx) users c).1.table.find k = (users.table.find k).map fun r =>
      if r = row ∧ digestOf w (bytesOf q) = digestOf w (bytesOf p) ∧ c.prepareUpdate_ok = true ∧
          c.stepUpdate_ok = true then
        { r with hashedPassword := (hashPassword (hashesWith crypt ctx) c q).getD r.hashedPassword }
      else r := by
  have hold := isCrypt_of_legacy hstored
  have hname : users.byName row.username = some row := by
    cases hfind : users.byName row.username with
    | none =>
        have hnone := List.find?_eq_none.mp hfind row hrow
        simp at hnone
    | some r =>
        obtain ⟨hr, hsame⟩ := byName_mem hfind
        have hfound := Table.mem_rows_iff.mp hr
        rw [users.unique r hr row hrow hsame, Table.mem_rows_iff.mp hrow] at hfound
        exact hfound.symm
  have hvalid : valid (hashesWith crypt ctx) q row.hashedPassword =
      decide (digestOf w (bytesOf q) = digestOf w (bytesOf p)) := by
    rw [valid, if_neg (by simp [hold]), Bool.eq_iff_iff, secureEqual_iff, CString.ext_iff, hstored, decide_eq_true_iff]
    exact legacyMd5_inj hw hp hq
  have hauth : userValidAuth (hashesWith crypt ctx) users c =
      (users.upgrade (hashesWith crypt ctx) c q row,
        if valid (hashesWith crypt ctx) q row.hashedPassword then 1 else 0) := by
    simp [userValidAuth, husername, hpassword, hprepare, hstep, hname]
  rw [hauth, hvalid]
  constructor
  · simp
  · intro k
    have hsame : ∀ r, users.table.find k = some r → r.userId = row.userId → r = row := by
      intro r hr hid
      have hfound := Table.find_mem hr
      have hrow' := Table.mem_rows_iff.mp hfound
      rw [hid, Table.mem_rows_iff.mp hrow] at hrow'
      exact (Option.some.inj hrow').symm
    rw [Users.upgrade, hvalid, hold]
    by_cases hequal : digestOf w (bytesOf q) = digestOf w (bytesOf p)
    · simp only [hequal, decide_true, Bool.not_false, Bool.and_self, if_true, true_and]
      cases hhash : hashPassword (hashesWith crypt ctx) c q with
      | none => simp
      | some newHash =>
          dsimp only
          by_cases hok : c.prepareUpdate_ok = true ∧ c.stepUpdate_ok = true
          · rw [if_pos (by simp [hok]), find_setPassword, toInt32_of_fits (hfits row hrow)]
            apply Option.map_congr
            intro r hr
            simp only [UserRow.store, hok, and_self, and_true, Option.getD_some]
            by_cases hid : r.userId = row.userId
            · rw [if_pos hid, if_pos (hsame r hr hid)]
            · rw [if_neg hid, if_neg (fun heq => hid (congrArg UserRow.userId heq))]
          · rw [if_neg (by simpa using hok)]
            simp [hok]
    · simp [hequal]

/-- Ann's digest, with words of 32 bits. -/
theorem legacy_login_ann : (userValidAuth (hashesWith sampleHashes.crypt garbage) oneUser
    { username := some ann.username, password := some aPassword }).2 = 1 := by
  have hstored : ann.hashedPassword.text = legacyMd5 garbage aPassword := by decide +kernel
  have hfits : oneUser.Fits := by
    intro r hr
    obtain rfl := List.mem_singleton.mp hr
    decide
  have hlogin := (legacy_login 32 (by decide) sampleHashes.crypt garbage garbage oneUser hfits ann
    (List.mem_singleton_self _) aPassword aPassword (by decide) (by decide) hstored
    { username := some ann.username, password := some aPassword } rfl rfl rfl rfl).1
  rw [hlogin, if_pos rfl]

end Tle.Md5
