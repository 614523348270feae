import Tle.Lib.Numerals
import Tle.Queue.Lemmas.Submissions
import Tle.Web.Get

/-!
# Which texts name a resource

Eight requests name what they want by a number in the URL. Each reads it with `strtoul`, with checks of its own.
-/

namespace Tle.Web
open Tle.Lib Tle.Queue

/-! ## What `strtoul` makes of a text -/

section Reading

variable {s : Text} {negative : Bool} {m v : Nat}

theorem strtoulChecked_iff : strtoulChecked s = some v ↔
    ∃ negative m, IsNumber negative m s ∧ m < 2 ^ 64 ∧ v = wrapUlong (signed negative m) := by
  constructor
  · intro h
    unfold strtoulChecked at h
    split at h
    · cases h
    · rename_i hsmall
      obtain ⟨negative, m, hnumber⟩ := isNumber_of_strtoulWhole h
      rw [hnumber.scan.1, Option.any_some, decide_eq_true_eq, natAbs_signed] at hsmall
      have hv := hnumber.scan.2.symm.trans h
      exact ⟨negative, m, hnumber, by omega, (Option.some.inj hv).symm⟩
  · rintro ⟨negative, m, hnumber, hm, rfl⟩
    rw [strtoulChecked, hnumber.scan.1, Option.any_some, natAbs_signed,
      if_neg (by simpa using hm), hnumber.scan.2]

theorem wrapUlong_mod (hm : m < 2 ^ 64) : (wrapUlong (signed negative m) % 2 ^ 32 : Nat) =
    signed negative m % (2 ^ 32 : Int) := by
  have hnat : ¬ 2 ^ 64 ≤ (signed negative m).natAbs := by
    rw [natAbs_signed]
    omega
  rw [wrapUlong, if_neg hnat]
  omega

end Reading

/-! ## The parameters -/

inductive NumberParameter where
  | submission
  | viewCode
  | task
  | desc
  | descFile
  | submit
  | bookmark
  | from_

/-- What a request meets apart from the parameter. -/
structure Scene where
  site : Site := {}
  env : Surroundings := {}
  server : Server := {}
  answers : Answers := {}
  request : GetRequest := {}
  auth : Auth := {}
  conn : ConnectionInfo := {}
  queue : Session := .idle .empty

def Reply.served : Reply → Bool
  | .response status _ _ => status < 400
  | _ => false

namespace NumberParameter

variable {p : NumberParameter} {w : Scene} {s : Text} {n m : Nat}

/-- The number the handler goes on with. -/
def number (p : NumberParameter) (s : Text) : Option Nat :=
  match p with
  | submission => (Site.detailId (some s)).map BitVec.toNat
  | from_ => Site.fromNumber (some s)
  | _ => some (pkOf s).toNat

def reply (p : NumberParameter) (w : Scene) (s : Text) : Reply :=
  match p with
  | submission => w.site.submissionPage w.env { w.request with id := some s } w.auth
  | viewCode => w.site.viewCodePage w.env { w.request with id := some s } w.auth
  | task => w.site.taskPage w.env { w.request with pk := some s } w.auth
  | desc => w.site.descPage w.env { w.request with pk := some s } w.auth false
  | descFile => w.site.descPage w.env { w.request with pk := some s } w.auth true
  | submit => w.site.submitPage w.env { w.request with pk := some s } w.auth
  | bookmark =>
      (Web.bookmark w.server w.answers { w.request.toRequest with pk := some s } w.auth w.conn w.queue).reply
  | from_ => w.site.submissionsPage w.env { w.request with from_ := some s } w.auth

/-- The number names a submission. -/
def forSubmission : NumberParameter → Bool
  | submission => true
  | viewCode => true
  | _ => false

def ServedFor (p : NumberParameter) (w : Scene) (s : Text) (n : Nat) : Prop :=
  p.number s = some n ∧ (p.reply w s).served = true

/-- No resource is served, whatever the tables hold. -/
def Refuses (p : NumberParameter) (s : Text) : Prop :=
  match p with
  | submission => ∀ negative m, IsNumber negative m s → m < 2 ^ 64 →
      signed negative m % 2 ^ 32 = 0 ∨ 2 ^ 31 ≤ signed negative m % 2 ^ 32
  | viewCode => strtoul s % 2 ^ 32 = 0 ∨ 2 ^ 31 ≤ strtoul s % 2 ^ 32
  | from_ => ∀ negative m, IsNumber negative m s → 2 ^ 64 ≤ m
  | _ => False

/-! ### What the handlers read -/

theorem pkOf_toNat (s : Text) : (pkOf s).toNat = strtoul s % 2 ^ 32 := BitVec.toNat_ofNat _ _

theorem detailId_eq_some {b : BitVec 32} : Site.detailId (some s) = some b ↔
    b ≠ 0 ∧ ∃ negative m, IsNumber negative m s ∧ m < 2 ^ 64 ∧ (b.toNat : Int) = signed negative m % 2 ^ 32 := by
  simp only [Site.detailId, Option.bind_some, Option.filter_eq_some_iff, Option.map_eq_some_iff,
    strtoulChecked_iff, decide_eq_true_eq]
  constructor
  · rintro ⟨⟨v, ⟨negative, m, hnumber, hm, rfl⟩, rfl⟩, hne⟩
    refine ⟨hne, negative, m, hnumber, hm, ?_⟩
    rw [BitVec.toNat_ofNat, wrapUlong_mod hm]
  · rintro ⟨hne, negative, m, hnumber, hm, hb⟩
    refine ⟨⟨_, ⟨negative, m, hnumber, hm, rfl⟩, ?_⟩, hne⟩
    apply BitVec.eq_of_toNat_eq
    rw [BitVec.toNat_ofNat, ← Int.ofNat_inj, wrapUlong_mod hm, hb]

theorem fromNumber_eq_some : Site.fromNumber (some s) = some n ↔
    ∃ negative m, IsNumber negative m s ∧ m < 2 ^ 64 ∧ (n : Int) = signed negative m % 2 ^ 32 := by
  simp only [Site.fromNumber, Option.map_eq_some_iff, strtoulChecked_iff]
  constructor
  · rintro ⟨v, ⟨negative, m, hnumber, hm, rfl⟩, rfl⟩
    exact ⟨negative, m, hnumber, hm, wrapUlong_mod hm⟩
  · rintro ⟨negative, m, hnumber, hm, hn⟩
    refine ⟨_, ⟨negative, m, hnumber, hm, rfl⟩, ?_⟩
    rw [← Int.ofNat_inj, wrapUlong_mod hm, hn]

theorem number_lt (h : p.number s = some n) : n < 2 ^ 32 := by
  cases p with
  | submission =>
      obtain ⟨b, -, rfl⟩ := Option.map_eq_some_iff.mp h
      exact b.isLt
  | from_ =>
      obtain ⟨negative, m, -, -, hn⟩ := fromNumber_eq_some.mp h
      omega
  | _ =>
      obtain rfl := Option.some.inj h
      exact (pkOf s).isLt

/-- A numeral below 2^32 is read as what it says. -/
theorem number_plain (hs : IsNumber false m s) (hm : m < 2 ^ 32) (h : p.number s = some n) : n = m := by
  have hread : ∀ {negative m'}, IsNumber negative m' s → (n : Int) = signed negative m' % 2 ^ 32 → n = m := by
    intro negative m' hs' hn
    obtain ⟨rfl, rfl⟩ := hs'.unique hs
    rw [signed, if_neg Bool.false_ne_true] at hn
    omega
  cases p with
  | submission =>
      obtain ⟨b, hb, rfl⟩ := Option.map_eq_some_iff.mp h
      obtain ⟨-, negative, m', hs', -, hn⟩ := detailId_eq_some.mp hb
      exact hread hs' hn
  | from_ =>
      obtain ⟨negative, m', hs', -, hn⟩ := fromNumber_eq_some.mp h
      exact hread hs' hn
  | _ =>
      have hn := Option.some.inj h
      rw [pkOf_toNat, hs.strtoul] at hn
      refine hread hs ?_
      rw [← hn]
      exact wrapUlong_mod (by omega)

/-- The reply depends on the text by its number only. -/
theorem reply_of_number {s' : Text} (h : p.number s = p.number s') : p.reply w s = p.reply w s' := by
  have hpk : (pkOf s).toNat = (pkOf s').toNat → pkOf s = pkOf s' := BitVec.eq_of_toNat_eq
  cases p with
  | submission =>
      have hid := Option.map_injective (fun _ _ => BitVec.eq_of_toNat_eq) h
      simp only [reply, Site.submissionPage, hid]
  | viewCode => simp only [reply, Site.viewCodePage, hpk (Option.some.inj h)]
  | task => simp only [reply, Site.taskPage, hpk (Option.some.inj h)]
  | desc => simp only [reply, Site.descPage, hpk (Option.some.inj h)]
  | descFile => simp only [reply, Site.descPage, hpk (Option.some.inj h)]
  | submit => simp only [reply, Site.submitPage, hpk (Option.some.inj h)]
  | bookmark =>
      have hsame := hpk (Option.some.inj h)
      rw [pkOf, pkOf] at hsame
      have horigin : sameOriginRequest w.server { w.request.toRequest with pk := some s } =
          sameOriginRequest w.server { w.request.toRequest with pk := some s' } := rfl
      simp only [reply, Web.bookmark, horigin, hsame]
  | from_ =>
      have hfrom : Site.fromNumber (some s) = Site.fromNumber (some s') := h
      simp only [reply, Site.submissionsPage, hfrom]

/-! ### A scene in which the number is there -/

def oneSubmission (id : Int) : Queue.Db where
  submissions := ⟨[{ submissionId := id, userId := none, taskPk := 1, code := some [], isPublic := 1 }],
    List.pairwise_singleton _ _⟩
  gradingJobs := .empty
  sequence := id
  references := by simp

def oneTask (pk : Int) : Tasks.Db where
  tasks := ⟨[{
      taskPk := pk
      name := "a".toList
      descPath := "a.txt".toList
      memoryLimit := 64
      timeLimit := 1
      maxScore := 100
      countCases := 1
      comparison := "token".toList }], List.pairwise_singleton _ _⟩
  subtaskGroups := .empty
  seen := []

def sceneOf (id pk : Int) : Scene where
  site := { queue := oneSubmission id, tasks := oneTask pk }
  env := { files := fun _ => some [] }
  answers := { toggleBookmark := fun _ _ => 0 }
  request := { origin := some defaultUrl }
  auth := { userId := 1, csrfToken := List.replicate 64 'a', authFail := false, sessionAuthenticated := true }
  conn := { csrf := ⟨List.replicate 64 'a' ++ ['\x00'], rfl⟩ }

theorem oneSubmission_numbered {id : Int} (h : 0 < id) : (oneSubmission id).Numbered := by
  intro s hs
  obtain rfl := List.mem_singleton.mp hs
  exact ⟨h, le_refl id⟩

theorem find_oneSubmission (id : Int) : ((oneSubmission id).submission id).isSome = true := by
  simp [oneSubmission, Db.submission, Table.find]

theorem find_oneTask (pk : Int) : ((oneTask pk).tasks.find pk).any (·.isHidden = 0) = true := by
  simp [oneTask, Table.find]

theorem code_of_scene (pk : Int) (b : BitVec 32) :
    ∃ code, (sceneOf b.toInt pk).site.fetchSubmissionCodeById true b = some code := by
  simp [Site.fetchSubmissionCodeById, sceneOf, oneSubmission, Db.submission, Table.find, columnInt, toInt32]

theorem task_of_scene (id : Int) (b : BitVec 32) :
    ∃ task, (sceneOf id b.toInt).site.fetchTaskByPk true b = some task ∧
      Tasks.validDescriptionName task.desc = true := by
  have hdesc : Tasks.validDescriptionName (columnText 1024 (some ['a', '.', 't', 'x', 't'])) = true := by decide
  simp [Site.fetchTaskByPk, sceneOf, oneTask, Table.find, hdesc]

theorem descPage_served (id : Int) (s : Text) (rawFile : Bool) :
    ((sceneOf id (pkOf s).toInt).site.descPage (sceneOf id (pkOf s).toInt).env { pk := some s }
      (sceneOf id (pkOf s).toInt).auth rawFile).served = true := by
  obtain ⟨task, htask, hdesc⟩ := task_of_scene id (pkOf s)
  have hfetch : (sceneOf id (pkOf s).toInt).env.fetch_ok = true := rfl
  have hfile : (sceneOf id (pkOf s).toInt).env.files (taskPath task) = some [] := rfl
  simp only [Site.descPage, hfetch, htask, hdesc, hfile]
  split
  · rename_i hinvalid
    cases hinvalid
  · cases rawFile with
    | true => rfl
    | false =>
        rw [if_neg Bool.false_ne_true]
        split <;> rfl

theorem bookmark_served (s : Text) : (bookmark.reply (sceneOf 1 1) s).served = true := by
  have horigin : sameOriginRequest {} { origin := some defaultUrl } = true := by decide
  have hcsrf : csrfValid true (sceneOf 1 1).auth.csrfToken (sceneOf 1 1).conn.csrf.text = true := by decide
  have hsame : sameOriginRequest {} { (sceneOf 1 1).request.toRequest with pk := some s } = true := horigin
  have hsession : (sceneOf 1 1).auth.sessionAuthenticated = true := rfl
  have hserver : (sceneOf 1 1).server = {} := rfl
  simp only [reply, Web.bookmark, hsession, hserver, hcsrf, hsame]
  rfl

theorem exists_scene (h : p.number s = some n) (hrow : p.forSubmission = true → 0 < n ∧ n < 2 ^ 31) :
    ∃ w : Scene, w.site.queue.Numbered ∧ p.ServedFor w s n := by
  have hn := number_lt h
  cases p with
  | submission =>
      obtain ⟨hpos, hlt⟩ := hrow rfl
      refine ⟨sceneOf n 1, oneSubmission_numbered (by omega), h, ?_⟩
      obtain ⟨b, hb, rfl⟩ := Option.map_eq_some_iff.mp h
      have hid : b.toInt = b.toNat := BitVec.toInt_eq_toNat_of_lt (by omega)
      obtain ⟨row, hrow⟩ := Option.isSome_iff_exists.mp (find_oneSubmission b.toNat)
      simp only [reply, Site.submissionPage, hb, Option.bind_some, Site.fetchSubmissionDetail, sceneOf, hid, hrow]
      rfl
  | viewCode =>
      obtain ⟨hpos, hlt⟩ := hrow rfl
      obtain rfl := Option.some.inj h
      have hid : (pkOf s).toInt = (pkOf s).toNat := BitVec.toInt_eq_toNat_of_lt (by omega)
      refine ⟨sceneOf (pkOf s).toInt 1, oneSubmission_numbered (by omega), h, ?_⟩
      obtain ⟨code, hcode⟩ := code_of_scene 1 (pkOf s)
      have hfetch : (sceneOf (pkOf s).toInt 1).env.fetch_ok = true := rfl
      simp only [reply, Site.viewCodePage, hfetch, hcode]
      rfl
  | task =>
      refine ⟨sceneOf 1 (pkOf s).toInt, oneSubmission_numbered one_pos, h, ?_⟩
      obtain ⟨task, htask, hdesc⟩ := task_of_scene 1 (pkOf s)
      have hfetch : (sceneOf 1 (pkOf s).toInt).env.fetch_ok = true := rfl
      simp only [reply, Site.taskPage, hfetch, htask, hdesc]
      rfl
  | desc => exact ⟨sceneOf 1 (pkOf s).toInt, oneSubmission_numbered one_pos, h, descPage_served 1 s false⟩
  | descFile => exact ⟨sceneOf 1 (pkOf s).toInt, oneSubmission_numbered one_pos, h, descPage_served 1 s true⟩
  | submit =>
      refine ⟨sceneOf 1 (pkOf s).toInt, oneSubmission_numbered one_pos, h, ?_⟩
      obtain ⟨task, htask, -⟩ := task_of_scene 1 (pkOf s)
      have hfetch : (sceneOf 1 (pkOf s).toInt).env.fetch_ok = true := rfl
      have hvalid : (sceneOf 1 (pkOf s).toInt).site.checkTaskPkValidity
          (sceneOf 1 (pkOf s).toInt).env.validity_ok (pkOf s) = 1 := if_pos (find_oneTask (pkOf s).toInt)
      simp only [reply, Site.submitPage, hfetch, htask, hvalid]
      rfl
  | bookmark => exact ⟨sceneOf 1 1, oneSubmission_numbered one_pos, h, bookmark_served s⟩
  | from_ =>
      refine ⟨sceneOf 1 1, oneSubmission_numbered one_pos, h, ?_⟩
      have hfrom : Site.fromNumber (some s) = some n := h
      simp only [reply, Site.submissionsPage, hfrom]
      rfl

/-! ### What is served -/

/-- Without a submission of the number nothing is served. -/
theorem row_of_served (hw : w.site.queue.Numbered) (h : p.ServedFor w s n) (hp : p.forSubmission = true) :
    0 < n ∧ n < 2 ^ 31 := by
  obtain ⟨hnumber, hserved⟩ := h
  have hfound : ∀ b : BitVec 32, (w.site.queue.submission b.toInt).isSome = true →
      0 < b.toNat ∧ b.toNat < 2 ^ 31 := by
    intro b hb
    obtain ⟨row, hrow⟩ := Option.isSome_iff_exists.mp hb
    have hpos := (hw row (Table.find_mem hrow)).1
    rw [Db.submission_key hrow, BitVec.toInt_eq_toNat_cond] at hpos
    split at hpos <;> omega
  cases p with
  | submission =>
      obtain ⟨b, hb, rfl⟩ := Option.map_eq_some_iff.mp hnumber
      apply hfound
      cases hrow : w.site.queue.submission b.toInt with
      | some row => rfl
      | none =>
          have hnone : w.site.fetchSubmissionDetail w.env.fetch_ok b = none := by
            simp [Site.fetchSubmissionDetail, hrow]
          simp only [reply, Site.submissionPage, hb, Option.bind_some, hnone] at hserved
          cases hserved
  | viewCode =>
      obtain rfl := Option.some.inj hnumber
      apply hfound
      cases hrow : w.site.queue.submission (pkOf s).toInt with
      | some row => rfl
      | none =>
          have hnone : w.site.fetchSubmissionCodeById w.env.fetch_ok (pkOf s) = none := by
            simp [Site.fetchSubmissionCodeById, hrow]
          simp only [reply, Site.viewCodePage, hnone] at hserved
          cases hserved
  | _ => cases hp

/-- A text is refused if it is not read, or read as a number that no submission has. -/
theorem refuses_iff : p.Refuses s ↔ ∀ n, p.number s = some n → p.forSubmission = true ∧ ¬(0 < n ∧ n < 2 ^ 31) := by
  cases p with
  | submission =>
      constructor
      · intro h n hn
        obtain ⟨b, hb, rfl⟩ := Option.map_eq_some_iff.mp hn
        obtain ⟨-, negative, m, hs, hm, hvalue⟩ := detailId_eq_some.mp hb
        have hrefused := h negative m hs hm
        exact ⟨rfl, by omega⟩
      · intro h negative m hs hm
        by_contra hrow
        have hvalue : ((BitVec.ofInt 32 (signed negative m)).toNat : Int) = signed negative m % 2 ^ 32 := by
          rw [BitVec.toNat_ofInt]
          omega
        have hne : BitVec.ofInt 32 (signed negative m) ≠ 0 := by
          intro hzero
          rw [hzero] at hvalue
          exact hrow (Or.inl hvalue.symm)
        have hb := detailId_eq_some.mpr ⟨hne, negative, m, hs, hm, hvalue⟩
        have hnone := (h _ (congrArg (Option.map BitVec.toNat) hb)).2
        omega
  | viewCode =>
      have hn := pkOf_toNat s
      constructor
      · intro h n heq
        obtain rfl := Option.some.inj heq
        have hrefused : strtoul s % 2 ^ 32 = 0 ∨ 2 ^ 31 ≤ strtoul s % 2 ^ 32 := h
        exact ⟨rfl, by omega⟩
      · intro h
        have hnone := (h _ rfl).2
        have hrefused : strtoul s % 2 ^ 32 = 0 ∨ 2 ^ 31 ≤ strtoul s % 2 ^ 32 := by omega
        exact hrefused
  | from_ =>
      constructor
      · intro h n hn
        obtain ⟨negative, m, hs, hm, -⟩ := fromNumber_eq_some.mp hn
        exact absurd (h negative m hs) (by omega)
      · intro h negative m hs
        by_contra hm
        have hvalue : ((signed negative m % 2 ^ 32).toNat : Int) = signed negative m % 2 ^ 32 := by omega
        have hread := h _ (fromNumber_eq_some.mpr ⟨negative, m, hs, by omega, hvalue⟩)
        exact Bool.false_ne_true hread.1
  | _ =>
      constructor
      · intro h
        cases h
      · intro h
        exact Bool.false_ne_true (h _ rfl).1

/-- A number that is served stands in the text, if the text is a numeral below 2^32 or is refused. -/
theorem served_numeral_iff (p : NumberParameter) (s : Text) :
    (∀ w : Scene, w.site.queue.Numbered → ∀ n, p.ServedFor w s n → IsNumber false n s) ↔
      (∃ m, m < 2 ^ 32 ∧ IsNumber false m s) ∨ p.Refuses s := by
  constructor
  · intro h
    by_contra hnot
    obtain ⟨hplain, hreads⟩ := not_or.mp hnot
    rw [refuses_iff, not_forall] at hreads
    obtain ⟨n, hreads⟩ := hreads
    rw [Classical.not_imp, not_and, Classical.not_not] at hreads
    obtain ⟨w, hw, hserved⟩ := exists_scene hreads.1 hreads.2
    exact hplain ⟨n, number_lt hreads.1, h w hw n hserved⟩
  · rintro (⟨m, hm, hs⟩ | hrefuses) w hw n hserved
    · rwa [number_plain hs hm hserved.1]
    · obtain ⟨hp, hrow⟩ := refuses_iff.mp hrefuses n hserved.1
      exact absurd (row_of_served hw hserved hp) hrow

/-- 2^32 + 1 is served as the first submission. -/
theorem served_alias : ¬ ∀ (p : NumberParameter) (s : Text) (w : Scene), w.site.queue.Numbered →
    ∀ n, p.ServedFor w s n → IsNumber false n s := by
  intro h
  have hnumber := h submission "4294967297".toList (sceneOf 1 1) (oneSubmission_numbered one_pos) 1
    ⟨by decide, by decide⟩
  exact absurd hnumber.scan.1 (by decide)

end NumberParameter

end Tle.Web
