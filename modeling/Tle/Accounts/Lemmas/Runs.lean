import Tle.Accounts.Lemmas.Changes

/-!
# What no critical section undoes
-/

namespace Tle.Accounts
open Tle.Lib Tle.Web

variable {h : Hashes} {a a' a'' : Store} {evs : List Event} {ev : Event} {c : AuthCall}
  {name username p q hash : CString} {k : Int}

/-- The names are such as `user_register` stores. -/
structure Store.Proper (a : Store) : Prop where
  started : 0 ≤ a.sequence
  numbers : ∀ r ∈ a.users.table.rows, 0 < r.userId
  names : ∀ r ∈ a.users.table.rows, r.username.text ≠ [] ∧ r.username.text.length ≤ 31

/-- Whoever has an account keeps its number, and what `hash_password` has stored for it. -/
structure Extends (a a' : Store) : Prop where
  number : ∀ name k, a.users.number name = some k → a'.users.number name = some k
  crypted : ∀ name r, a.users.byName name = some r → isCrypt r.hashedPassword = true → a'.users.byName name = some r

theorem Extends.refl (a : Store) : Extends a a where
  number _ _ hnumber := hnumber
  crypted _ _ hrow _ := hrow

theorem Extends.trans (hfirst : Extends a a') (hsecond : Extends a' a'') : Extends a a'' where
  number name k hnumber := hsecond.number name k (hfirst.number name k hnumber)
  crypted name r hrow hcrypt := hsecond.crypted name r (hfirst.crypted name r hrow hcrypt) hcrypt

theorem Extends.of_users (husers : a'.users = a.users) : Extends a a' where
  number name k hnumber := by rw [husers]; exact hnumber
  crypted name r hrow _ := by rw [husers]; exact hrow

theorem Store.Proper.of_users (hproper : a.Proper) (husers : a'.users = a.users)
    (hsequence : a'.sequence = a.sequence) : a'.Proper where
  started := by rw [hsequence]; exact hproper.started
  numbers := by rw [husers]; exact hproper.numbers
  names := by rw [husers]; exact hproper.names

theorem Store.Proper.fits (hproper : a.Proper) (hsmall : a.sequence < 2 ^ 31) : a.users.Fits := by
  intro r hr
  have hpositive := hproper.numbers r hr
  have hle := a.numbered r hr
  omega

theorem Store.Proper.toInt32 (hproper : a.Proper) (hsmall : a.sequence < 2 ^ 31) {row : UserRow}
    (hrow : row ∈ a.users.table.rows) : Tle.Lib.toInt32 row.userId = row.userId :=
  toInt32_of_fits (hproper.fits hsmall row hrow)

/-! ## One change -/

theorem sequence_le (hchange : Change h a evs a') : a.sequence ≤ a'.sequence := by
  cases hchange with
  | nothing => exact Int.le_refl _
  | checked c => exact Int.le_refl _
  | registered _ _ _ hinsert =>
      rw [sequence_insertUser hinsert]
      omega
  | loggedIn _ _ _ _ _ _ hinsert =>
      rw [(insertSession_spec hinsert).2.1]
      exact Int.le_refl _
  | loggedOut token => exact Int.le_refl _

theorem proper_validAuth (hproper : a.Proper) (c : AuthCall) : (a.validAuth h c).1.Proper := by
  have hrow : ∀ r ∈ (a.validAuth h c).1.users.table.rows,
      ∃ r' ∈ a.users.table.rows, r'.userId = r.userId ∧ r'.username = r.username := by
    intro r hr
    obtain ⟨f, hf, hfind⟩ := find_userValidAuth h a.users c r.userId
    have hfound : (userValidAuth h a.users c).1.table.find r.userId = some r := Table.mem_rows_iff.mp hr
    rw [hfind] at hfound
    obtain ⟨r', hr', rfl⟩ := Option.map_eq_some_iff.mp hfound
    exact ⟨r', Table.find_mem hr', (hf r').1.symm, (hf r').2.symm⟩
  refine ⟨hproper.started, ?_, ?_⟩
  · intro r hr
    obtain ⟨r', hr', hid, -⟩ := hrow r hr
    rw [← hid]
    exact hproper.numbers r' hr'
  · intro r hr
    obtain ⟨r', hr', -, hname⟩ := hrow r hr
    rw [← hname]
    exact hproper.names r' hr'

/-- Only what is not of `hash_password` is stored anew. -/
theorem extends_validAuth (hfits : a.users.Fits) (c : AuthCall) : Extends a (a.validAuth h c).1 where
  number name k hnumber := by rw [number_validAuth]; exact hnumber
  crypted name r hrow hcrypt := by
    have husers : (a.validAuth h c).1.users = (userValidAuth h a.users c).1 := rfl
    rw [husers]
    rcases userValidAuth_cases h a.users c with heq | ⟨username, p, row, newHash, -, hrow', hold, -, -, heq⟩
    · rw [heq, hrow]
    · have hmem := (byName_mem hrow').1
      rw [heq, byName_setPassword, hrow, Option.map_some, toInt32_of_fits (hfits row hmem), UserRow.store, if_neg]
      intro hid
      have hfound := Table.mem_rows_iff.mp (byName_mem hrow).1
      rw [hid, Table.mem_rows_iff.mp hmem, Option.some.injEq] at hfound
      rw [hfound, hcrypt] at hold
      cases hold

theorem proper_insertUser (hproper : a.Proper) (hne : username.text ≠ []) (hlength : username.text.length ≤ 31)
    (hinsert : a.insertUser username hash = some a') : a'.Proper := by
  have hstarted := hproper.started
  have hrows := rows_insertUser hinsert
  refine ⟨?_, ?_, ?_⟩
  · rw [sequence_insertUser hinsert]
    omega
  · rw [hrows, List.forall_mem_append]
    refine ⟨hproper.numbers, ?_⟩
    simp
    omega
  · rw [hrows, List.forall_mem_append]
    refine ⟨hproper.names, ?_⟩
    simp [hne, hlength]

theorem extends_insertUser (hinsert : a.insertUser username hash = some a') : Extends a a' := by
  have hother : ∀ name r, a.users.byName name = some r → a'.users.byName name = some r := by
    intro name r hr
    rw [byName_insertUser hinsert, if_neg, hr]
    rintro rfl
    rw [byName_of_insertUser hinsert] at hr
    cases hr
  refine ⟨?_, fun name r hr _ => hother name r hr⟩
  intro name k hnumber
  obtain ⟨r, hr, hid⟩ := number_eq_some_iff.mp hnumber
  exact number_eq_some_iff.mpr ⟨r, hother name r hr, hid⟩

theorem change_keeps (hproper : a.Proper) (hsmall : a.sequence < 2 ^ 31) (hchange : Change h a evs a') :
    a'.Proper ∧ Extends a a' := by
  have hfits := hproper.fits hsmall
  cases hchange with
  | nothing => exact ⟨hproper, Extends.refl a⟩
  | checked c => exact ⟨proper_validAuth hproper c, extends_validAuth hfits c⟩
  | registered hne hlength _ hinsert =>
      exact ⟨proper_insertUser hproper hne hlength hinsert, extends_insertUser hinsert⟩
  | @loggedIn c _ _ _ _ _ _ _ _ _ _ _ _ _ hinsert =>
      obtain ⟨husers, hsequence, -⟩ := insertSession_spec hinsert
      exact ⟨(proper_validAuth hproper c).of_users husers hsequence,
        (extends_validAuth hfits c).trans (Extends.of_users husers)⟩
  | loggedOut token => exact ⟨hproper.of_users rfl rfl, Extends.of_users rfl⟩

theorem accepts_of_validAuth (hname : c.username = some name) (hp : c.password = some p)
    (hvalid : (a.validAuth h c).2 = 1) : a.users.accepts h name p = some true := by
  have hanswer : (userValidAuth h a.users c).2 = 1 := hvalid
  simp only [userValidAuth, hname, hp] at hanswer
  split at hanswer
  · cases hanswer
  · split at hanswer
    · cases hanswer
    · rename_i row hrow
      rw [Users.accepts, hrow, Option.map_some]
      congr 1
      by_contra hno
      rw [if_neg hno] at hanswer
      cases hanswer

/-! ## A login -/

/-- The tables before and after a login: they know the name under the number and accept the password, and then have
the session. -/
structure Login (h : Hashes) (a : Store) (name p : CString) (k : Int) (token csrf : Text) (a' : Store) : Prop where
  number : a.users.number name = some k
  accepts : a.users.accepts h name p = some true
  csrf_digits : csrf.length = 64 ∧ ∀ c ∈ csrf, c ∈ hex
  opened : a'.sessions.find token = some { token, userId := k, csrfToken := csrf }

theorem login_change {username password token csrf : Text} (hproper : a.Proper) (hsmall : a.sequence < 2 ^ 31)
    (hchange : Change h a [.loggedIn username password k token csrf] a') :
    ∃ name p : CString, name.text = username ∧ p.text = password ∧ Login h a name p k token csrf a' := by
  cases hchange with
  | @loggedIn c name p row e _ _ _ hname hpassword hvalid hrow htoken hcsrf hinsert =>
      have hnumber : (a.validAuth h c).1.users.number name = some row.userId :=
        number_eq_some_iff.mpr ⟨row, hrow, rfl⟩
      rw [number_validAuth] at hnumber
      have hid := (proper_validAuth hproper c).toInt32 hsmall (byName_mem hrow).1
      refine ⟨name, p, rfl, rfl, ?_, accepts_of_validAuth hname hpassword hvalid, randomHex_spec hcsrf, ?_⟩
      · rw [hnumber, hid]
      · rw [Table.find_insert? (insertSession_spec hinsert).2.2, if_pos rfl]

/-! ## The sessions -/

/-- The session that an event opens or ends. -/
def Event.token : Event → Option Text
  | .registered .. => none
  | .loggedIn _ _ _ token _ => some token
  | .loggedOut token => some token

theorem find_change {token : Text} (hchange : Change h a evs a') (hother : ∀ ev ∈ evs, ev.token ≠ some token) :
    a'.sessions.find token = a.sessions.find token := by
  cases hchange with
  | nothing => rfl
  | checked c => rfl
  | registered hne hlength hhash hinsert => rw [sessions_insertUser hinsert]
  | @loggedIn c username password row e token' csrf a' husername hpassword hvalid hrow htoken hcsrf hinsert =>
      rw [Table.find_insert? (insertSession_spec hinsert).2.2, sessions_validAuth, if_neg]
      rintro rfl
      exact hother _ (List.mem_singleton_self _) rfl
  | loggedOut token' =>
      rw [find_deleteSession, if_neg]
      rintro rfl
      exact hother _ (List.mem_singleton_self _) rfl

/-! ## Whole runs -/

theorem after_snoc (sections : List (Section × Conditions)) (s : Section × Conditions) :
    after h a (sections ++ [s]) = Section.run h (after h a sections) s := run_snoc _ _

theorem after_split (before : List (Section × Conditions)) (s : Section × Conditions)
    (behind : List (Section × Conditions)) :
    after h a (before ++ s :: behind) = after h (after h a (before ++ [s])) behind := by
  rw [List.append_cons, after, run_append]
  rfl

theorem sequence_le_after (h : Hashes) (a : Store) (sections : List (Section × Conditions)) :
    a.sequence ≤ (after h a sections).sequence :=
  run_keeps (P := fun a' : Store => a.sequence ≤ a'.sequence) (Int.le_refl _)
    (fun a' s hle => Int.le_trans hle (sequence_le (section_change h a' s))) sections

theorem keeps_after (hproper : a.Proper) (sections : List (Section × Conditions))
    (hsmall : (after h a sections).sequence < 2 ^ 31) :
    (after h a sections).Proper ∧ Extends a (after h a sections) := by
  refine run_keeps (P := fun a' : Store => a'.sequence < 2 ^ 31 → a'.Proper ∧ Extends a a') ?_ ?_ sections hsmall
  · intro _
    exact ⟨hproper, Extends.refl a⟩
  · intro a' s hkept hsmall'
    have hchange := section_change h a' s
    have hbefore := Int.lt_of_le_of_lt (sequence_le hchange) hsmall'
    obtain ⟨hproper', hgrown⟩ := hkept hbefore
    obtain ⟨hproper'', hstep⟩ := change_keeps hproper' hbefore hchange
    exact ⟨hproper'', hgrown.trans hstep⟩

end Tle.Accounts
