import Tle.Web.Form
import Tle.Web.Lemmas.Ids

/-!
# A value that arrives in several calls

The texts of a form are appended or copied to their offset. The other fields are set by each call anew.
-/

namespace Tle.Web
open Tle.Lib Tle.Html

variable {key v c c' : Text} {chunks : List Text} {conn conn' : ConnectionInfo} {p : Parse}

/-! ## Delivery -/

/-- The calls for the chunks of a value from an offset on. -/
def chunkCalls (key : Text) (off : Nat) : List Text → List IteratorCall
  | [] => []
  | data :: rest => { key, data, off } :: chunkCalls key (off + data.length) rest

/-- The form after the chunks of a value of `key`. -/
def deliverValue (conn : ConnectionInfo) (key : Text) (chunks : List Text) : Parse :=
  postProcess { conn } (chunkCalls key 0 chunks)

/-- However the value is cut, some call refuses it, or however it is cut, it is taken in like in one call. -/
def ChunkInvariant (key v : Text) : Prop :=
  ∀ conn, (∀ chunks, Cuts v chunks → (deliverValue conn key chunks).aborted = true) ∨
    ∀ chunks, Cuts v chunks → (deliverValue conn key chunks).conn = (deliverValue conn key [v]).conn

def feedChunk (key : Text) (p : Parse) (off : Nat) (data : Text) : Parse := p.call { key, data, off }

theorem postProcess_chunkCalls (key : Text) (p : Parse) (off : Nat) (chunks : List Text) :
    postProcess p (chunkCalls key off chunks) = deliver (feedChunk key) p off chunks := by
  induction chunks generalizing p off with
  | nil => rfl
  | cons c chunks ih => exact ih _ _

/-! ## Appended and copied fields -/

/-- The fields after a call that returns `MHD_YES`. -/
def accepted (conn : ConnectionInfo) (call : IteratorCall) : Option ConnectionInfo :=
  if (postIterator conn call).2 then some (postIterator conn call).1 else none

/-- The fields after calls that have all returned `MHD_YES`. -/
def Parse.outcome (p : Parse) : Option ConnectionInfo := if p.aborted then none else some p.conn

theorem outcome_call (p : Parse) (call : IteratorCall) :
    (p.call call).outcome = p.outcome.bind fun conn => accepted conn call := by
  unfold Parse.call Parse.outcome accepted
  cases haborted : p.aborted with
  | true => simp [haborted]
  | false => cases hyes : (postIterator p.conn call).2 <;> simp [hyes]

/-- Two chunks in a row are taken in like one that is both. -/
def Merges (key : Text) : Prop := ∀ conn off c c', c ≠ [] → c' ≠ [] →
  (accepted conn { key, data := c, off }).bind
      (fun conn => accepted conn { key, data := c', off := off + c.length }) =
    accepted conn { key, data := c ++ c', off }

theorem chunkInvariant_of_merges (h : Merges key) (v : Text) : ChunkInvariant key v := by
  intro conn
  have hmerge : ∀ (p : Parse) off c c', c ≠ [] → c' ≠ [] →
      (feedChunk key (feedChunk key p off c) (off + c.length) c').outcome =
        (feedChunk key p off (c ++ c')).outcome := by
    intro p off c c' hc hc'
    unfold feedChunk
    rw [outcome_call, outcome_call, outcome_call, Option.bind_assoc]
    exact congrArg _ (funext fun conn => h conn off c c' hc hc')
  have hall : ∀ chunks, Cuts v chunks → (deliverValue conn key chunks).outcome =
      (deliverValue conn key [v]).outcome := by
    intro chunks hcuts
    rw [deliverValue, deliverValue, postProcess_chunkCalls]
    exact obs_deliver_of_merge hmerge hcuts { conn } 0
  cases hone : (deliverValue conn key [v]).aborted with
  | true =>
      apply Or.inl
      intro chunks hcuts
      have hsame := hall chunks hcuts
      simp only [Parse.outcome, hone] at hsame
      by_contra hgoes
      simp [hgoes] at hsame
  | false =>
      apply Or.inr
      intro chunks hcuts
      have hsame := hall chunks hcuts
      simp only [Parse.outcome, hone] at hsame
      split at hsame
      · cases hsame
      · exact Option.some.inj hsame

/-- A field that is copied to its offset in an array. -/
theorem merges_of_put {size : Nat} (get : ConnectionInfo → Buffer size)
    (set : ConnectionInfo → Buffer size → ConnectionInfo) (hget : ∀ conn b, get (set conn b) = b)
    (hset : ∀ conn b b', set (set conn b) b' = set conn b')
    (hcall : ∀ conn off data, accepted conn { key, data, off } = ((get conn).put off data).map (set conn)) :
    Merges key := by
  intro conn off c c' _ _
  rw [hcall, hcall, ← Buffer.put_put]
  cases (get conn).put off c with
  | none => rfl
  | some b =>
      rw [Option.map_some, Option.bind_some, Option.bind_some, hcall, hget]
      exact congrArg (Option.map · _) (funext fun b' => hset conn b b')

theorem appendCode_eq (conn : ConnectionInfo) (data : Text) : conn.appendCode data =
    if (conn.code.getD []).length + data.length ≤ maxCodeBytes then
      ({ conn with code := some (conn.code.getD [] ++ data) }, true) else (conn, false) := by
  unfold ConnectionInfo.appendCode
  by_cases hfits : (conn.code.getD []).length + data.length ≤ maxCodeBytes
  · rw [if_pos hfits, if_neg (by omega)]
  · rw [if_neg hfits, if_pos (by omega)]

/-- A field that is appended to the source text. -/
theorem merges_of_append (seen : ConnectionInfo → ConnectionInfo)
    (hcode : ∀ conn, (seen conn).code = conn.code)
    (hseen : ∀ conn code code',
      { seen { seen conn with code } with code := code' } = { seen conn with code := code' })
    (hcall : ∀ conn off data, data ≠ [] → postIterator conn { key, data, off } = (seen conn).appendCode data) :
    Merges key := by
  have haccepted : ∀ conn off data, data ≠ [] → accepted conn { key, data, off } =
      if (conn.code.getD []).length + data.length ≤ maxCodeBytes then
        some { seen conn with code := some (conn.code.getD [] ++ data) } else none := by
    intro conn off data hdata
    rw [accepted, hcall conn off data hdata, appendCode_eq, hcode]
    split <;> rfl
  intro conn off c c' hc hc'
  rw [haccepted _ _ _ hc, haccepted _ _ _ (List.append_ne_nil_of_left_ne_nil hc c')]
  by_cases hfits : (conn.code.getD []).length + c.length ≤ maxCodeBytes
  · have hlength : (conn.code.getD [] ++ c).length + c'.length ≤ maxCodeBytes ↔
        (conn.code.getD []).length + (c ++ c').length ≤ maxCodeBytes := by
      simp only [List.length_append]
      omega
    rw [if_pos hfits, Option.bind_some, haccepted _ _ _ hc', hseen]
    simp only [Option.getD_some, hlength, List.append_assoc]
  · have hfull : ¬ (conn.code.getD []).length + (c ++ c').length ≤ maxCodeBytes := by
      rw [List.length_append]
      omega
    rw [if_neg hfits, if_neg hfull]
    rfl

theorem merges_file (hkey : Field.named key = some .file) : Merges key := by
  apply merges_of_append fun conn => { conn with fileFieldSeen := true }
  · exact fun _ => rfl
  · exact fun _ _ _ => rfl
  · intro conn off data hdata
    simp [postIterator, hkey, hdata]

theorem merges_code (hkey : Field.named key = some .code) : Merges key := by
  apply merges_of_append fun conn => { conn with codeFieldSeen := true }
  · exact fun _ => rfl
  · exact fun _ _ _ => rfl
  · intro conn off data hdata
    simp [postIterator, hkey, hdata]

theorem merges_csrf (hkey : Field.named key = some .csrf) : Merges key := by
  apply merges_of_put (·.csrf) fun conn csrf => { conn with csrf }
  · exact fun _ _ => rfl
  · exact fun _ _ _ => rfl
  · intro conn off data
    simp only [accepted, postIterator, hkey]
    cases conn.csrf.put off data <;> rfl

theorem merges_username (hkey : Field.named key = some .username) : Merges key := by
  apply merges_of_put (·.username) fun conn username => { conn with username }
  · exact fun _ _ => rfl
  · exact fun _ _ _ => rfl
  · intro conn off data
    simp only [accepted, postIterator, hkey]
    cases conn.username.put off data <;> rfl

theorem merges_password (hkey : Field.named key = some .password) : Merges key := by
  apply merges_of_put (·.password) fun conn password => { conn with password }
  · exact fun _ _ => rfl
  · exact fun _ _ _ => rfl
  · intro conn off data
    simp only [accepted, postIterator, hkey]
    cases conn.password.put off data <;> rfl

theorem merges_done (hkey : Field.named key = some .done) : Merges key := by
  intro conn off c c' _ _
  simp [accepted, postIterator, hkey]

theorem merges_unknown (hkey : Field.named key = none) : Merges key := by
  intro conn off c c' _ _
  simp [accepted, postIterator, hkey]

/-! ## Fields that each call sets anew -/

/-- The ends of the value, as a last chunk, have to read like the value. -/
theorem chunkInvariant_of_set {β : Type*} (read : Text → β) (set : ConnectionInfo → β → ConnectionInfo)
    (hset : ∀ conn x y, set (set conn x) y = set conn y) (hinj : ∀ x y, set {} x = set {} y → x = y)
    (hcall : ∀ conn off data, postIterator conn { key, data, off } = (set conn (read data), true)) (v : Text) :
    ChunkInvariant key v ↔ ∀ s, s ≠ [] → s <:+ v → read s = read v := by
  have hfeed : ∀ (p : Parse) off data, feedChunk key p off data =
      if p.aborted then p else { conn := set p.conn (read data) } := by
    intro p off data
    rw [feedChunk, Parse.call, hcall]
    rfl
  have hlast : ∀ (conn : ConnectionInfo) init s,
      deliverValue conn key (init ++ [s]) = { conn := set conn (read s) } := by
    intro conn init s
    rw [deliverValue, postProcess_chunkCalls, deliver_of_overwrite]
    · rw [hfeed]
      rfl
    · intro p off off' c
      rw [hfeed, hfeed]
    · intro p off c c'
      rw [hfeed, hfeed, hfeed]
      cases haborted : p.aborted with
      | true => simp [haborted]
      | false => simp [hset]
  have hwhole : ∀ conn, deliverValue conn key [v] = { conn := set conn (read v) } := fun conn => hlast conn [] v
  constructor
  · intro h s hs hsuffix
    obtain ⟨init, hcuts⟩ := Cuts.exists_of_suffix hs hsuffix
    rcases h {} with hrefused | hsame
    · have haborted := hrefused _ hcuts
      rw [hlast] at haborted
      cases haborted
    · have hconn := hsame _ hcuts
      rw [hlast, hwhole] at hconn
      exact hinj _ _ hconn
  · intro h conn
    apply Or.inr
    intro chunks hcuts
    obtain ⟨init, s, rfl, hs, hsuffix⟩ := hcuts.last
    rw [hlast, hwhole, h s hs hsuffix]

theorem taskPk_iff (hkey : Field.named key = some .taskPk) (v : Text) : ChunkInvariant key v ↔ OneNumber v := by
  rw [← endsRead_whole_iff, EndsRead]
  apply chunkInvariant_of_set (fun data => atoi (cstr data)) fun conn taskPk => { conn with taskPk }
  · exact fun _ _ _ => rfl
  · exact fun _ _ h => congrArg ConnectionInfo.taskPk h
  · intro conn off data
    simp [postIterator, hkey]

def saysOn (data : Text) : Bool := cstr data = "on".toList

/-- Neither an end of the value nor what stands before a NUL is `on`. -/
def NoOn (v : Text) : Prop := ¬ "on".toList <:+ v ∧ ¬ "on\x00".toList <:+: v

theorem saysOn_iff {s : Text} : saysOn s = true ↔ s = "on".toList ∨ ∃ junk, s = "on\x00".toList ++ junk := by
  rw [saysOn, decide_eq_true_iff]
  constructor
  · intro h
    by_cases hnul : '\x00' ∈ s
    · obtain ⟨junk, hjunk⟩ := exists_of_nul_mem hnul
      rw [h] at hjunk
      exact Or.inr ⟨junk, hjunk⟩
    · exact Or.inl ((cstr_eq_self.mpr hnul).symm.trans h)
  · rintro (rfl | ⟨junk, rfl⟩)
    · rfl
    · exact cstr_append_of_not_mem (s := "on".toList) (by decide) ('\x00' :: junk)

theorem saysOn_single (c : Char) : saysOn [c] = false := by
  rw [← Bool.not_eq_true, saysOn_iff]
  rintro (h | ⟨junk, h⟩)
  · cases (List.cons.inj h).2
  · cases (List.cons.inj h).2

theorem noOn_iff (v : Text) : NoOn v ↔ ∀ s, s <:+ v → saysOn s = false := by
  constructor
  · intro h s hsuffix
    rw [← Bool.not_eq_true, saysOn_iff]
    rintro (rfl | ⟨junk, rfl⟩)
    · exact h.1 hsuffix
    · exact h.2 ((List.prefix_append _ junk).isInfix.trans hsuffix.isInfix)
  · intro h
    constructor
    · intro hsuffix
      have hno := h _ hsuffix
      rw [saysOn_iff.mpr (Or.inl rfl)] at hno
      cases hno
    · rintro ⟨a, b, hv⟩
      have hno := h ("on\x00".toList ++ b) ⟨a, by rw [← hv, List.append_assoc]⟩
      rw [saysOn_iff.mpr (Or.inr ⟨b, rfl⟩)] at hno
      cases hno

theorem saysOn_ends_iff (v : Text) : (∀ s, s ≠ [] → s <:+ v → saysOn s = saysOn v) ↔ NoOn v := by
  rw [noOn_iff]
  constructor
  · intro h s hsuffix
    by_cases hs : s = []
    · subst hs
      rfl
    have hv : v ≠ [] := fun hnil => hs (List.suffix_nil.mp (hnil ▸ hsuffix))
    -- the last character alone is one of the ends
    have hlast := h [v.getLast hv] (List.cons_ne_nil _ _)
      (List.singleton_suffix_iff_getLast?_eq_some.mpr (List.getLast?_eq_some_getLast hv))
    rw [h s hs hsuffix, ← hlast, saysOn_single]
  · intro h s _ hsuffix
    rw [h s hsuffix, h v (List.suffix_refl v)]

theorem isPublic_iff (hkey : Field.named key = some .isPublic) (v : Text) : ChunkInvariant key v ↔ NoOn v := by
  rw [← saysOn_ends_iff]
  apply chunkInvariant_of_set saysOn fun conn isPublic => { conn with isPublic }
  · exact fun _ _ _ => rfl
  · exact fun _ _ h => congrArg ConnectionInfo.isPublic h
  · intro conn off data
    simp [postIterator, hkey, saysOn]

theorem isAnonymous_iff (hkey : Field.named key = some .isAnonymous) (v : Text) :
    ChunkInvariant key v ↔ NoOn v := by
  rw [← saysOn_ends_iff]
  apply chunkInvariant_of_set saysOn fun conn isAnonymous => { conn with isAnonymous }
  · exact fun _ _ _ => rfl
  · exact fun _ _ h => congrArg ConnectionInfo.isAnonymous h
  · intro conn off data
    simp [postIterator, hkey, saysOn]

/-! ## The actions of the administrator -/

def withId (conn : ConnectionInfo) (action : AdminAction) (id : Option Nat) : ConnectionInfo :=
  match id with
  | none => conn
  | some n => { conn with adminAction := some action, adminId := BitVec.ofNat 32 n }

theorem withId_some (conn : ConnectionInfo) (action : AdminAction) (id : Option Nat) (n : Nat) :
    withId (withId conn action id) action (some n) = withId conn action (some n) := by
  cases id <;> rfl

theorem withId_inj {action : AdminAction} {id id' : Option Nat} (hid : ∀ n, id = some n → n < 2 ^ 32)
    (hid' : ∀ n, id' = some n → n < 2 ^ 32) (h : withId {} action id = withId {} action id') : id = id' := by
  have haction := congrArg ConnectionInfo.adminAction h
  have hnumber := congrArg (BitVec.toNat ∘ ConnectionInfo.adminId) h
  cases id with
  | none =>
      cases id' with
      | none => rfl
      | some m => cases haction
  | some n =>
      cases id' with
      | none => cases haction
      | some m =>
          have hn := hid n rfl
          have hm := hid' m rfl
          simp only [Function.comp_apply, withId, BitVec.toNat_ofNat] at hnumber
          rw [Nat.mod_eq_of_lt hn, Nat.mod_eq_of_lt hm] at hnumber
          rw [hnumber]

theorem chooseAction_eq (conn : ConnectionInfo) (action : AdminAction) (data : Text) :
    conn.chooseAction action (cstr data) =
      match idOf data with
      | none => (conn, false)
      | some n => (withId conn action (some n), true) := by
  unfold ConnectionInfo.chooseAction idOf
  cases strtoulWhole (cstr data) with
  | none => rfl
  | some n =>
      by_cases hn : n < 2 ^ 32
      · have hfilter : (some n).filter (· < 2 ^ 32) = some n := by
          rw [Option.filter_some, if_pos (decide_eq_true hn)]
        simp only [hfilter]
        rw [if_neg (by omega)]
        rfl
      · have hfilter : (some n).filter (· < 2 ^ 32) = none := by
          rw [Option.filter_some, if_neg (by simpa using hn)]
        simp only [hfilter]
        rw [if_pos (by omega)]

theorem lastId_lt {id : Option Nat} (hid : ∀ n, id = some n → n < 2 ^ 32) (chunks : List Text) :
    ∀ n, lastId id chunks = some n → n < 2 ^ 32 := by
  induction chunks generalizing id with
  | nil => exact hid
  | cons c chunks ih =>
      cases hc : idOf c with
      | none =>
          rw [lastId_of_none hc]
          exact hid
      | some m =>
          rw [lastId_of_some hc]
          exact ih fun n hn => Option.some.inj hn ▸ idOf_lt hc

theorem postProcess_aborted (h : p.aborted = true) (calls : List IteratorCall) : postProcess p calls = p := by
  induction calls with
  | nil => rfl
  | cons call calls ih =>
      have hstay : p.call call = p := if_pos h
      rw [postProcess, run, List.foldl_cons, hstay]
      exact ih

/-- What the chunks of an id leave behind. -/
theorem deliver_ids (action : AdminAction)
    (hcall : ∀ conn off data, postIterator conn { key, data, off } = conn.chooseAction action (cstr data))
    (conn : ConnectionInfo) (id : Option Nat) (off : Nat) (chunks : List Text) :
    (postProcess { conn := withId conn action id } (chunkCalls key off chunks)).conn =
        withId conn action (lastId id chunks) ∧
      ((postProcess { conn := withId conn action id } (chunkCalls key off chunks)).aborted = true ↔
        ∃ c ∈ chunks, idOf c = none) := by
  induction chunks generalizing id off with
  | nil => exact ⟨rfl, by simp [chunkCalls, postProcess, run]⟩
  | cons c chunks ih =>
      have hchoose := (hcall (withId conn action id) off c).trans (chooseAction_eq _ action c)
      have hstep : postProcess { conn := withId conn action id } (chunkCalls key off (c :: chunks)) =
          postProcess (Parse.call { conn := withId conn action id } { key, data := c, off })
            (chunkCalls key (off + c.length) chunks) := rfl
      have hone : Parse.call { conn := withId conn action id } { key, data := c, off } =
          { conn := (postIterator (withId conn action id) { key, data := c, off }).1
            aborted := !(postIterator (withId conn action id) { key, data := c, off }).2 } := rfl
      rw [hstep, hone, hchoose]
      cases hc : idOf c with
      | none =>
          rw [postProcess_aborted rfl, lastId_of_none hc]
          exact ⟨rfl, iff_of_true rfl ⟨c, List.mem_cons_self, hc⟩⟩
      | some n =>
          simp only [withId_some, Bool.not_true]
          obtain ⟨hconn, haborted⟩ := ih (some n) (off + c.length)
          refine ⟨by rw [hconn, lastId_of_some hc], haborted.trans ?_⟩
          simp [hc]

theorem ids_invariant_iff (action : AdminAction)
    (hcall : ∀ conn off data, postIterator conn { key, data, off } = conn.chooseAction action (cstr data))
    (v : Text) : ChunkInvariant key v ↔ chain (cstr v) = false ∨ LoneDigit v := by
  have hconn : ∀ conn chunks, (deliverValue conn key chunks).conn = withId conn action (lastId none chunks) :=
    fun conn chunks => (deliver_ids action hcall conn none 0 chunks).1
  have haborted : ∀ conn chunks, (deliverValue conn key chunks).aborted = true ↔ ∃ c ∈ chunks, idOf c = none :=
    fun conn chunks => (deliver_ids action hcall conn none 0 chunks).2
  have hlt : ∀ chunks n, lastId none chunks = some n → n < 2 ^ 32 := fun chunks => lastId_lt (by simp) chunks
  rw [← ids_iff]
  constructor
  · intro h
    rcases h {} with hrefused | hsame
    · exact Or.inl fun chunks hcuts => (haborted {} chunks).mp (hrefused chunks hcuts)
    · apply Or.inr
      intro chunks hcuts
      have heq := hsame chunks hcuts
      rw [hconn, hconn] at heq
      exact withId_inj (hlt chunks) (hlt [v]) heq
  · rintro (hrefused | hsame) conn
    · exact Or.inl fun chunks hcuts => (haborted conn chunks).mpr (hrefused chunks hcuts)
    · apply Or.inr
      intro chunks hcuts
      rw [hconn, hconn, hsame chunks hcuts]

/-! ## All fields -/

/-- What a value of the field has to be for its chunks not to matter. -/
def Field.Robust (v : Text) : Field → Prop
  | taskPk => OneNumber v
  | isPublic | isAnonymous => NoOn v
  | rejudge | toggleHidden => chain (cstr v) = false ∨ LoneDigit v
  | file | code | csrf | username | password | done => True

/-- The chunks of a value do not matter exactly when its field is robust. -/
theorem chunkInvariant_iff (key v : Text) :
    ChunkInvariant key v ↔ ∀ field, Field.named key = some field → field.Robust v := by
  cases hkey : Field.named key with
  | none =>
      refine iff_of_true (chunkInvariant_of_merges (merges_unknown hkey) v) ?_
      intro field hfield
      cases hfield
  | some field =>
      have hfield : (∀ field', some field = some field' → field'.Robust v) ↔ field.Robust v := by simp
      rw [hfield]
      cases field with
      | taskPk => exact taskPk_iff hkey v
      | isPublic => exact isPublic_iff hkey v
      | isAnonymous => exact isAnonymous_iff hkey v
      | rejudge => exact ids_invariant_iff .rejudge (fun conn off data => by simp [postIterator, hkey]) v
      | toggleHidden => exact ids_invariant_iff .toggleHidden (fun conn off data => by simp [postIterator, hkey]) v
      | file => exact iff_of_true (chunkInvariant_of_merges (merges_file hkey) v) trivial
      | code => exact iff_of_true (chunkInvariant_of_merges (merges_code hkey) v) trivial
      | csrf => exact iff_of_true (chunkInvariant_of_merges (merges_csrf hkey) v) trivial
      | username => exact iff_of_true (chunkInvariant_of_merges (merges_username hkey) v) trivial
      | password => exact iff_of_true (chunkInvariant_of_merges (merges_password hkey) v) trivial
      | done => exact iff_of_true (chunkInvariant_of_merges (merges_done hkey) v) trivial

theorem not_chunkInvariant : ¬ ∀ key v : Text, ChunkInvariant key v := by
  intro h
  have hcuts : Cuts "12".toList ["1".toList, "2".toList] := ⟨by decide, by decide, by decide⟩
  rcases h "task_pk".toList "12".toList {} with hrefused | hsame
  · exact absurd (hrefused _ hcuts) (by decide)
  · exact absurd (congrArg ConnectionInfo.taskPk (hsame _ hcuts)) (by decide)

end Tle.Web
