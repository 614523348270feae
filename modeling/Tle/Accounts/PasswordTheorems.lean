import Tle.Accounts.Password
import Tle.Lib.Strings

/-!
# A login may change what is stored, and not who may log in
-/

namespace Tle.Accounts
open Tle.Lib

/-! ## Comparing -/

section Comparing

variable {a b : CString} {i : Nat}

theorem byteAt_of_lt (h : i < a.text.length) : byteAt a i = BitVec.ofNat 8 a.text[i].toNat := by
  simp [byteAt, h]

theorem byteAt_of_le (h : a.text.length ≤ i) : byteAt a i = 0 := by
  simp [byteAt, h]

theorem byteAt_ne_zero (h : i < a.text.length) : byteAt a i ≠ 0 := by
  obtain ⟨hnul, hbyte⟩ := a.bytes _ (List.getElem_mem h)
  intro hzero
  rw [byteAt_of_lt h] at hzero
  have hnat := congrArg BitVec.toNat hzero
  rw [BitVec.toNat_ofNat, Nat.mod_eq_of_lt hbyte] at hnat
  exact hnul (Char.toNat_inj.mp hnat)

theorem foldl_or_eq_zero (f : Nat → BitVec 8) (is : List Nat) (diff : BitVec 8) :
    is.foldl (fun diff i => diff ||| f i) diff = 0 ↔ diff = 0 ∧ ∀ i ∈ is, f i = 0 := by
  induction is generalizing diff with
  | nil => simp
  | cons i is ih =>
      have hor : diff ||| f i = 0 ↔ diff = 0 ∧ f i = 0 := BitVec.or_eq_zero_iff
      rw [List.foldl_cons, ih, hor, List.forall_mem_cons, and_assoc]

theorem eq_of_byteAt (h : ∀ i, byteAt a i = byteAt b i) : a = b := by
  have hle : ∀ {a b : CString}, (∀ i, byteAt a i = byteAt b i) → a.text.length ≤ b.text.length := by
    intro a b h
    by_contra hlt
    have hbehind := byteAt_of_le (a := b) (Nat.le_refl b.text.length)
    exact byteAt_ne_zero (Nat.lt_of_not_le hlt) ((h b.text.length).trans hbehind)
  have hlength := Nat.le_antisymm (hle h) (hle fun i => (h i).symm)
  have htext : a.text = b.text := by
    apply List.ext_getElem hlength
    intro i hi hi'
    have hbyte := (a.bytes _ (List.getElem_mem hi)).2
    have hbyte' := (b.bytes _ (List.getElem_mem hi')).2
    have hnat := congrArg BitVec.toNat (h i)
    rw [byteAt_of_lt hi, byteAt_of_lt hi', BitVec.toNat_ofNat, BitVec.toNat_ofNat, Nat.mod_eq_of_lt hbyte,
      Nat.mod_eq_of_lt hbyte'] at hnat
    exact Char.toNat_inj.mp hnat
  exact CString.ext htext

/-- `secure_equal` compares the whole strings, although it keeps eight bits of their lengths. -/
theorem secureEqual_iff : secureEqual a b = true ↔ a = b := by
  simp only [secureEqual, decide_eq_true_eq, foldl_or_eq_zero]
  constructor
  · rintro ⟨-, hall⟩
    apply eq_of_byteAt
    intro i
    by_cases hi : i < max a.text.length b.text.length
    · refine BitVec.xor_eq_zero_iff.mp (hall i (List.mem_range.mpr ?_))
      split <;> omega
    · rw [byteAt_of_le (by omega), byteAt_of_le (by omega)]
  · rintro rfl
    simp

/-- Neither strings whose lengths have the same low bits nor a string and its beginning pass for equal. -/
theorem secure_equal_exact (a b : CString) : (secureEqual a b = true ↔ a.text = b.text) ∧
    (∀ k, b.text.length = a.text.length + 256 * (k + 1) → secureEqual a b = false) ∧
    ∀ rest, rest ≠ [] → b.text = a.text ++ rest → secureEqual a b = false := by
  have hexact : secureEqual a b = true ↔ a.text = b.text := secureEqual_iff.trans CString.ext_iff
  refine ⟨hexact, ?_, ?_⟩
  · intro k hlength
    rw [Bool.eq_false_iff, ne_eq, hexact]
    intro htext
    rw [htext] at hlength
    omega
  · intro rest hrest htext
    rw [Bool.eq_false_iff, ne_eq, hexact, htext]
    intro heq
    exact hrest (List.self_eq_append_right.mp heq)

end Comparing

/-! ## What the libraries promise -/

/-- What `crypt_r` promises for the salts of `hash_password`: the hash starts with the salt, and is a setting under
which its password has the same hash. -/
structure Hashes.Salted (h : Hashes) : Prop where
  salted : ∀ password random hash, h.crypt password (salt random) = some hash →
    (salt random).text <+: hash.text
  again : ∀ password random hash, h.crypt password (salt random) = some hash → h.crypt password hash = some hash

/-- Besides, neither hash has collisions. -/
structure Hashes.Lawful (h : Hashes) : Prop extends h.Salted where
  crypt_injective : ∀ password password' setting hash, h.crypt password setting = some hash →
    h.crypt password' setting = some hash → password = password'
  md5_injective : ∀ password password', h.md5 password = h.md5 password' → password = password'

variable {h : Hashes} {users : Users} {c : AuthCall} {p q stored newHash : CString} {row : UserRow}

theorem isCrypt_iff : isCrypt stored = true ↔ "$6$".toList <+: stored.text := by
  have hnul : '\x00' ∉ "$6$".toList := by decide
  exact strncmpEq_whole_iff hnul stored.text

theorem hashPassword_spec (laws : h.Salted) (hhash : hashPassword h c p = some newHash) :
    isCrypt newHash = true ∧ h.crypt p newHash = some newHash := by
  obtain ⟨random, -, hhash⟩ := Option.bind_eq_some_iff.mp hhash
  have hcrypt := (Option.filter_eq_some_iff.mp hhash).1
  have hsalt : "$6$".toList <+: (salt random).text := List.prefix_append _ _
  exact ⟨isCrypt_iff.mpr (hsalt.trans (laws.salted p random newHash hcrypt)), laws.again p random newHash hcrypt⟩

/-- The new hash accepts the passwords that the old digest accepts. -/
theorem valid_newHash (laws : h.Lawful) (hstored : isCrypt stored = false) (hvalid : valid h p stored = true)
    (hhash : hashPassword h c p = some newHash) (q : CString) : valid h q newHash = valid h q stored := by
  obtain ⟨hnew, hagain⟩ := hashPassword_spec laws.toSalted hhash
  have hdigest : h.md5 p = stored := by
    rw [valid, if_neg (by simp [hstored])] at hvalid
    exact secureEqual_iff.mp hvalid
  rw [valid, if_pos hnew, valid, if_neg (by simp [hstored]), Bool.eq_iff_iff, Option.any_eq_true]
  constructor
  · rintro ⟨hash, hcrypt, hequal⟩
    rw [secureEqual_iff.mp hequal] at hcrypt
    rw [laws.crypt_injective q p newHash newHash hcrypt hagain]
    exact secureEqual_iff.mpr hdigest
  · intro hequal
    rw [laws.md5_injective q p ((secureEqual_iff.mp hequal).trans hdigest.symm)]
    exact ⟨newHash, hagain, secureEqual_iff.mpr rfl⟩

/-! ## One call -/

/-- The numbers of the users are `int`. -/
def Users.Fits (users : Users) : Prop := ∀ r ∈ users.table.rows, -2 ^ 31 ≤ r.userId ∧ r.userId < 2 ^ 31

/-- The digest of the user accepts the password. -/
def Users.accepts (users : Users) (h : Hashes) (username password : CString) : Option Bool :=
  (users.byName username).map fun row => valid h password row.hashedPassword

/-- A call leaves the table, or stores one user's password anew. -/
theorem userValidAuth_cases (h : Hashes) (users : Users) (c : AuthCall) : (userValidAuth h users c).1 = users ∨
    ∃ username p row newHash, c.username = some username ∧ users.byName username = some row ∧
      isCrypt row.hashedPassword = false ∧ valid h p row.hashedPassword = true ∧
      hashPassword h c p = some newHash ∧
      (userValidAuth h users c).1 = users.setPassword (toInt32 row.userId) newHash := by
  unfold userValidAuth
  split
  · rename_i username p husername hpassword
    split
    · exact Or.inl rfl
    · split
      · exact Or.inl rfl
      · rename_i row hrow
        simp only [Users.upgrade]
        split
        · rename_i hold
          rw [Bool.and_eq_true, Bool.not_eq_true'] at hold
          split
          · exact Or.inl rfl
          · rename_i newHash hhash
            split
            · exact Or.inr ⟨username, p, row, newHash, husername, hrow, hold.2, hold.1, hhash, rfl⟩
            · exact Or.inl rfl
        · exact Or.inl rfl
  · exact Or.inl rfl

/-- The answer depends on what is accepted only. -/
theorem userValidAuth_answer {users' : Users} (haccepts : users'.accepts h = users.accepts h) :
    (userValidAuth h users' c).2 = (userValidAuth h users c).2 := by
  have hanswer : ∀ users : Users, (userValidAuth h users c).2 =
      (c.username.bind fun username => c.password.map fun password =>
        if !c.prepare_ok || !c.step_ok then -1
        else (users.accepts h username password).elim 0 fun accepted => if accepted then 1 else 0).getD 0 := by
    intro users
    unfold userValidAuth Users.accepts
    cases c.username with
    | none => rfl
    | some username =>
        cases c.password with
        | none => rfl
        | some p =>
            simp only [Option.bind_some, Option.map_some, Option.getD_some]
            split
            · rfl
            · cases users.byName username <;> rfl
  rw [hanswer, hanswer, haccepts]

/-! ## All calls -/

theorem toInt32_of_fits {z : Int} (h : -2 ^ 31 ≤ z ∧ z < 2 ^ 31) : toInt32 z = z := by
  rw [toInt32, BitVec.toInt_ofInt]
  exact Int.bmod_eq_of_le (by omega) (by omega)

theorem byName_mem {username : CString} (hrow : users.byName username = some row) :
    row ∈ users.table.rows ∧ row.username = username :=
  ⟨List.mem_of_find?_eq_some hrow, of_decide_eq_true (List.find?_some hrow :)⟩

theorem byName_setPassword (users : Users) (userId : Int) (hash username : CString) :
    (users.setPassword userId hash).byName username = (users.byName username).map (UserRow.store userId hash) := by
  have hrows : (users.setPassword userId hash).table.rows = users.table.rows.map (UserRow.store userId hash) :=
    rows_store users.table userId hash
  rw [Users.byName, hrows, List.find?_map, Users.byName]
  congr 2
  funext r
  simp

theorem find_setPassword (users : Users) (userId : Int) (hash : CString) (k : Int) :
    (users.setPassword userId hash).table.find k = (users.table.find k).map (UserRow.store userId hash) := by
  rw [Users.setPassword, Table.find_updateWhere]
  congr 1
  funext r
  simp [UserRow.store]

/-- A call changes the row of the user that it names, and nobody's access. -/
theorem userValidAuth_keeps (laws : h.Lawful) (hfits : users.Fits) (c : AuthCall) :
    (userValidAuth h users c).1.Fits ∧ (userValidAuth h users c).1.accepts h = users.accepts h ∧
      ∀ k row, users.table.find k = some row → c.username ≠ some row.username →
        (userValidAuth h users c).1.table.find k = some row := by
  obtain heq | ⟨username, p, row, newHash, husername, hrow, hold, hvalid, hhash, heq⟩ :=
    userValidAuth_cases h users c
  · rw [heq]
    exact ⟨hfits, rfl, fun k r hr _ => hr⟩
  · obtain ⟨hmem, rfl⟩ := byName_mem hrow
    have hsame : ∀ r ∈ users.table.rows, r.userId = row.userId → r = row := by
      intro r hr hid
      have hfound := Table.mem_rows_iff.mp hr
      rw [hid, Table.mem_rows_iff.mp hmem] at hfound
      exact (Option.some.inj hfound).symm
    rw [heq, toInt32_of_fits (hfits row hmem)]
    refine ⟨?_, ?_, ?_⟩
    · intro r hr
      obtain ⟨old, hold, rfl⟩ := List.mem_map.mp (rows_store users.table row.userId newHash ▸ hr)
      rw [UserRow.userId_store]
      exact hfits old hold
    · funext username q
      rw [Users.accepts, byName_setPassword, Option.map_map, Users.accepts]
      apply Option.map_congr
      intro r hr
      have hr := (byName_mem hr).1
      rw [Function.comp_apply, UserRow.store]
      split
      · rename_i hid
        rw [hsame r hr hid]
        exact valid_newHash laws hold hvalid hhash q
      · rfl
    · intro k r hr hother
      have hne : r.userId ≠ row.userId := by
        intro hid
        rw [hsame r (Table.find_mem hr) hid] at hother
        exact hother husername
      rw [find_setPassword, hr, Option.map_some, UserRow.store, if_neg hne]

/-! ## Hashes for one password -/

def cString (s : String) (h : isBytes s.toList = true) : CString := ⟨s.toList, isBytes_iff.mp h⟩

def aPassword : CString := cString "password" (by decide)

def aDigest : CString := cString "5f4dcc3b5aa765d61d8327deb882cf99" (by decide)

def zeroSalt : Fin 16 → BitVec 8 := fun _ => 0

/-- The end of the hash of the password with this salt. -/
def cryptDigest : Text :=
  "S6u9FY.itGit4YAC5kvYKovmVnrSPVCFprziEQyrMOtIIqqxWvvmDKUUYIW2xfUCmCH5slvKRM3oZtePbnip50".toList

/-- The salt in front of a hash. -/
def settingSalt (setting : Text) : Text := setting.take 3 ++ (setting.drop 3).takeWhile (· ≠ '$')

/-- No real digest starts with a star. -/
def starred (p : CString) : CString where
  text := '*' :: p.text
  bytes := List.forall_mem_cons.mpr ⟨by decide, p.bytes⟩

def digestWith (setting : Text) (p : CString) : Text :=
  if p = aPassword ∧ setting = (salt zeroSalt).text then cryptDigest else (starred p).text

def cryptWith (p setting : CString) : CString where
  text := settingSalt setting.text ++ '$' :: digestWith (settingSalt setting.text) p
  bytes := by
    have hbytes : isBytes ('$' :: cryptDigest) = true := by decide
    have hdigest := List.forall_mem_cons.mp (isBytes_iff.mp hbytes)
    rw [List.forall_mem_append, List.forall_mem_cons]
    refine ⟨?_, hdigest.1, ?_⟩
    · rw [settingSalt, List.forall_mem_append]
      exact ⟨fun c hc => setting.bytes c (List.mem_of_mem_take hc),
        fun c hc => setting.bytes c (List.mem_of_mem_drop (List.takeWhile_subset _ hc))⟩
    · unfold digestWith
      split
      · exact hdigest.2
      · exact (starred p).bytes

/-- The digests of the password, the old one that of MD5 with words of 32 bits, and for any other password the
password itself. -/
def sampleHashes : Hashes where
  crypt p setting := some (cryptWith p setting)
  md5 p := if p = aPassword then aDigest else starred p

theorem settingSalt_salt (random : Fin 16 → BitVec 8) {t : Text} (ht : ∀ c, t.head? = some c → c = '$') :
    settingSalt ((salt random).text ++ t) = (salt random).text := by
  have hchars : ∀ c ∈ List.ofFn fun i => saltChar (random i), decide (c ≠ '$') = true := by
    have hall : alphabet.all (· ≠ '$') = true := by decide
    intro c hc
    obtain ⟨i, rfl⟩ := List.mem_ofFn.mp hc
    exact List.all_eq_true.mp hall _ (saltChar_mem (random i))
  have hbehind : t.takeWhile (· ≠ '$') = [] := by
    cases t with
    | nil => rfl
    | cons c t => simp [ht c rfl]
  have hdrop : ((salt random).text ++ t).drop 3 = (List.ofFn fun i => saltChar (random i)) ++ t := rfl
  have htake : ((salt random).text ++ t).take 3 = "$6$".toList := rfl
  rw [settingSalt, hdrop, htake, List.takeWhile_append_of_pos hchars, hbehind, List.append_nil]
  rfl

theorem starred_injective (hequal : starred p = starred q) : p = q :=
  CString.ext (List.cons.inj (congrArg CString.text hequal)).2

theorem digestWith_injective {setting : Text} (hequal : digestWith setting p = digestWith setting q) : p = q := by
  have hhead : cryptDigest.head? ≠ some '*' := by decide
  have hdiffers : ∀ r : CString, cryptDigest ≠ (starred r).text := fun r heq => hhead (congrArg List.head? heq)
  unfold digestWith at hequal
  split at hequal
  · rename_i hp
    split at hequal
    · rename_i hq
      exact hp.1.trans hq.1.symm
    · exact absurd hequal (hdiffers q)
  · split at hequal
    · exact absurd hequal.symm (hdiffers p)
    · exact starred_injective (CString.ext hequal)

theorem text_cryptWith (p setting : CString) : (cryptWith p setting).text =
    settingSalt setting.text ++ '$' :: digestWith (settingSalt setting.text) p := rfl

theorem cryptWith_salt (p : CString) (random : Fin 16 → BitVec 8) :
    (cryptWith p (salt random)).text = (salt random).text ++ '$' :: digestWith (salt random).text p := by
  have hsalt := settingSalt_salt random (t := []) nofun
  rw [List.append_nil] at hsalt
  rw [text_cryptWith, hsalt]

theorem sampleHashes_lawful : sampleHashes.Lawful where
  salted p random hash hcrypt := by
    obtain rfl := Option.some.inj hcrypt
    rw [cryptWith_salt]
    exact List.prefix_append _ _
  again p random hash hcrypt := by
    obtain rfl := Option.some.inj hcrypt
    have hsalt := settingSalt_salt random (t := '$' :: digestWith (salt random).text p) (by simp [eq_comm])
    have htext : (cryptWith p (cryptWith p (salt random))).text = (cryptWith p (salt random)).text := by
      rw [text_cryptWith, cryptWith_salt, hsalt]
    exact congrArg some (CString.ext htext)
  crypt_injective p p' setting hash hcrypt hcrypt' := by
    have htext := congrArg CString.text (Option.some.inj (hcrypt.trans hcrypt'.symm))
    exact digestWith_injective (List.cons.inj (List.append_cancel_left htext)).2
  md5_injective p p' hequal := by
    have hhead : aDigest.text.head? ≠ some '*' := by decide
    have hdiffers : ∀ r : CString, aDigest ≠ starred r := fun r heq =>
      hhead (congrArg (fun s : CString => s.text.head?) heq)
    simp only [sampleHashes] at hequal
    split at hequal
    · rename_i hp
      split at hequal
      · rename_i hp'
        exact hp.trans hp'.symm
      · exact absurd hequal (hdiffers p')
    · split at hequal
      · exact absurd hequal.symm (hdiffers p)
      · exact starred_injective hequal

/-- Whatever calls have been made, each call is answered as before them, and changes no password but that of the
user it names. -/
theorem auth_preserved (h : Hashes) (laws : h.Lawful) (users : Users) (hfits : users.Fits) (calls : List AuthCall)
    (c : AuthCall) : (userValidAuth h (users.after h calls) c).2 = (userValidAuth h users c).2 ∧
      ∀ k row, (users.after h calls).table.find k = some row → c.username ≠ some row.username →
        (userValidAuth h (users.after h calls) c).1.table.find k = some row := by
  have hkeeps : (users.after h calls).Fits ∧ (users.after h calls).accepts h = users.accepts h :=
    run_keeps (P := fun users' : Users => users'.Fits ∧ users'.accepts h = users.accepts h) ⟨hfits, rfl⟩
      (fun users' c' hkept => by
        obtain ⟨hfits', haccepts, -⟩ := userValidAuth_keeps laws hkept.1 c'
        exact ⟨hfits', haccepts.trans hkept.2⟩) calls
  exact ⟨userValidAuth_answer hkeeps.2, (userValidAuth_keeps laws hkeeps.1 c).2.2⟩

def ann : UserRow := { userId := 1, username := cString "ann" (by decide), hashedPassword := aDigest }

def bob : UserRow := { userId := 2 ^ 32 + 1, username := cString "bob" (by decide), hashedPassword := aDigest }

def oneUser : Users where
  table := ⟨[ann], List.pairwise_singleton _ _⟩
  unique := by decide

/-- A login that stores the password anew. -/
def aLogin (row : UserRow) : AuthCall :=
  { username := some row.username, password := some aPassword, random := some zeroSalt }

theorem auth_preserved_upgrade :
    (userValidAuth sampleHashes (oneUser.after sampleHashes [aLogin ann]) (aLogin ann)).2 = 1 := by
  have hfits : oneUser.Fits := by
    intro r hr
    obtain rfl := List.mem_singleton.mp hr
    decide
  have hkept := auth_preserved sampleHashes sampleHashes_lawful oneUser hfits [aLogin ann] (aLogin ann)
  exact hkept.1.trans (by decide)

def twoUsers : Users where
  table := ⟨[ann, bob], by decide⟩
  unique := by decide

/-- A number of 2^32 + 1 is read as 1, and the login of the second user changes what is stored for the first. -/
theorem upgrade_hits_other : ¬ ∀ (h : Hashes), h.Lawful → ∀ (users : Users) (calls : List AuthCall) (c : AuthCall),
    (userValidAuth h (users.after h calls) c).2 = (userValidAuth h users c).2 ∧
      ∀ k row, (users.after h calls).table.find k = some row → c.username ≠ some row.username →
        (userValidAuth h (users.after h calls) c).1.table.find k = some row := by
  intro h
  have hkept := (h sampleHashes sampleHashes_lawful twoUsers [] (aLogin bob)).2 1 ann (by decide) (by decide)
  exact absurd hkept (by decide)

end Tle.Accounts
