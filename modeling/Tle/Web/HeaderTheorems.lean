import Tle.Lib.Fields
import Tle.Lib.Strings
import Tle.Web.Handler

/-!
# The headers of a request

What `cookie_value` takes out of the header `Cookie`, and which values of `Origin` and `Referer` pass for those of
the site.
-/

namespace Tle.Web
open Tle.Lib

/-! ## Cookies -/

/-- The pieces of a header between semicolons, without the spaces in front. -/
def cookiePieces (cookie : Text) : List Text :=
  (cookie.splitOnP (· = ';')).map (·.dropWhile (· = ' '))

structure CookieName (name : Text) : Prop where
  ne_nil : name ≠ []
  semicolon : ';' ∉ name
  equals : '=' ∉ name
  space : ' ' ∉ name
  -- a C string
  nul : '\x00' ∉ name

section Cookies

variable {name p : Text} {outSize : Nat}

/-- The first piece that starts with the name and an equals sign. -/
def namedPiece (name cookie : Text) : Option Text :=
  (cookiePieces cookie).find? ((name ++ ['=']).isPrefixOf ·)

theorem cookiePieces_space : cookiePieces (' ' :: p) = cookiePieces p := by
  obtain ⟨first, rest, hsplit⟩ := List.exists_cons_of_ne_nil (List.splitOnP_ne_nil (· = ';') p)
  simp [cookiePieces, List.splitOnP_cons_eq_if_modifyHead, hsplit]

theorem namedPiece_semicolon : namedPiece name (';' :: p) = namedPiece name p := by
  have hpieces : cookiePieces (';' :: p) = [] :: cookiePieces p := by
    simp [cookiePieces, List.splitOnP_cons_eq_if_modifyHead]
  have hempty : (name ++ ['=']).isPrefixOf ([] : Text) = false := by
    cases name <;> rfl
  simp only [namedPiece, hpieces]
  rw [List.find?_cons_of_neg (by simp [hempty])]

/-- The separators that `cookie_value` skips belong to no piece with a name. -/
theorem namedPiece_skipSeparators (name p : Text) : namedPiece name (skipSeparators p) = namedPiece name p := by
  induction p with
  | nil => rfl
  | cons c p ih =>
      by_cases hspace : c = ' '
      · subst hspace
        have hpiece : namedPiece name (' ' :: p) = namedPiece name p := by
          rw [namedPiece, cookiePieces_space, namedPiece]
        rw [hpiece, ← ih]
        rfl
      · by_cases hsemicolon : c = ';'
        · subst hsemicolon
          rw [namedPiece_semicolon, ← ih]
          rfl
        · simp [skipSeparators, hspace, hsemicolon]

theorem head_skipSeparators : (skipSeparators p).head? ≠ some ' ' := by
  intro h
  have hhead := List.head?_dropWhile_not (fun c => c = ' ' || c = ';') p
  rw [← skipSeparators, h] at hhead
  cases hhead

theorem prefix_takeWhile_iff {t : Text} (h : ';' ∉ t) (p : Text) : t <+: p.takeWhile (· ≠ ';') ↔ t <+: p := by
  constructor
  · exact fun hfront => hfront.trans (List.takeWhile_prefix _)
  · rintro ⟨u, rfl⟩
    have hpos : ∀ c ∈ t, decide (c ≠ ';') = true := fun c hc => decide_eq_true fun heq => h (heq ▸ hc)
    rw [List.takeWhile_append_of_pos hpos]
    exact List.prefix_append _ _

theorem namedPiece_nil : namedPiece name [] = none := by
  have hempty : (name ++ ['=']).isPrefixOf ([] : Text) = false := by
    cases name <;> rfl
  simp [namedPiece, cookiePieces, hempty]

/-- The pieces are the one up to the first semicolon and those behind it. -/
theorem namedPiece_cut (hhead : p.head? ≠ some ' ') : ∃ rest, cookiePieces p = p.takeWhile (· ≠ ';') :: rest ∧
    rest.find? ((name ++ ['=']).isPrefixOf ·) = namedPiece name (p.dropWhile (· ≠ ';')) := by
  have hfirst : (p.takeWhile (· ≠ ';')).dropWhile (· = ' ') = p.takeWhile (· ≠ ';') := by
    cases p with
    | nil => rfl
    | cons c p =>
        have hc : c ≠ ' ' := by simpa using hhead
        by_cases hsemicolon : c = ';'
        · simp [hsemicolon]
        · simp [hsemicolon, hc]
  have hno : ∀ c ∈ p.takeWhile (· ≠ ';'), decide (c = ';') = false := by
    intro c hc
    simpa using List.mem_takeWhile_imp hc
  have hcut : p.takeWhile (· ≠ ';') ++ p.dropWhile (· ≠ ';') = p := List.takeWhile_append_dropWhile
  cases hrest : p.dropWhile (· ≠ ';') with
  | nil =>
      have hsplit := List.splitOnP_eq_singleton hno
      rw [hrest, List.append_nil] at hcut
      rw [hcut] at hsplit hfirst
      exact ⟨[], by rw [cookiePieces, hsplit, List.map_singleton, hfirst, hcut], namedPiece_nil.symm⟩
  | cons c rest =>
      have hc : c = ';' := by
        have hhead := List.head?_dropWhile_not (· ≠ ';') p
        rw [hrest] at hhead
        simpa using hhead
      subst hc
      have hsplit := List.splitOnP_append_cons_of_forall_mem hno ';' rfl rest
      rw [← hrest, hcut] at hsplit
      refine ⟨cookiePieces rest, ?_, namedPiece_semicolon.symm⟩
      rw [cookiePieces, hsplit, List.map_cons, hfirst, cookiePieces]

theorem namedPiece_front (hname : CookieName name) (hhead : p.head? ≠ some ' ') : namedPiece name p =
    if name ++ ['='] <+: p then some (p.takeWhile (· ≠ ';')) else namedPiece name (p.dropWhile (· ≠ ';')) := by
  have hfront : ';' ∉ name ++ ['='] := by simp [hname.semicolon]
  obtain ⟨rest, hpieces, hrest⟩ := @namedPiece_cut name p hhead
  rw [namedPiece, hpieces]
  split
  · rename_i h
    exact List.find?_cons_of_pos (List.isPrefixOf_iff_prefix.mpr ((prefix_takeWhile_iff hfront p).mpr h))
  · rename_i h
    have hno : ¬(name ++ ['=']).isPrefixOf (p.takeWhile (· ≠ ';')) = true := by
      rwa [List.isPrefixOf_iff_prefix, prefix_takeWhile_iff hfront]
    rw [List.find?_cons_of_neg hno, hrest]

/-- The comparison of `cookie_value`. -/
theorem startsWithName_iff (hname : CookieName name) (q : Text) :
    (strncmpEq q name name.length = true ∧ q[name.length]? = some '=') ↔ name ++ ['='] <+: q := by
  rw [strncmpEq_whole_iff hname.nul]
  constructor
  · rintro ⟨⟨u, rfl⟩, hequals⟩
    rw [List.getElem?_append_right (Nat.le_refl _), Nat.sub_self] at hequals
    obtain ⟨t, rfl⟩ : ∃ t, u = '=' :: t := by
      cases u with
      | nil => cases hequals
      | cons c t => exact ⟨t, by rw [Option.some.inj hequals]⟩
    exact ⟨t, by simp⟩
  · rintro ⟨t, rfl⟩
    simp

/-- The value of a piece, as `cookie_value` cuts it out. -/
theorem takeWhile_value (hname : CookieName name) {q : Text} (h : name ++ ['='] <+: q) :
    q.takeWhile (· ≠ ';') = name ++ '=' :: (q.drop (name.length + 1)).takeWhile (· ≠ ';') := by
  obtain ⟨t, rfl⟩ := h
  have hpos : ∀ c ∈ name ++ ['='], decide (c ≠ ';') = true := by
    intro c hc
    rcases List.mem_append.mp hc with hc | hc
    · exact decide_eq_true fun heq => hname.semicolon (heq ▸ hc)
    · rw [List.mem_singleton.mp hc]
      rfl
  have hlen : (name ++ ['=']).length = name.length + 1 := by simp
  rw [List.takeWhile_append_of_pos hpos, ← hlen, List.drop_left' rfl, List.append_assoc, List.singleton_append]

theorem namedPiece_of_name (hname : CookieName name) (h : name ++ ['='] <+: skipSeparators p) :
    namedPiece name p = some (name ++ '=' :: ((skipSeparators p).drop (name.length + 1)).takeWhile (· ≠ ';')) := by
  rw [← namedPiece_skipSeparators, namedPiece_front hname head_skipSeparators, if_pos h, takeWhile_value hname h]

theorem namedPiece_of_other (hname : CookieName name) (h : ¬name ++ ['='] <+: skipSeparators p) :
    namedPiece name p = namedPiece name ((skipSeparators p).dropWhile (· ≠ ';')) := by
  rw [← namedPiece_skipSeparators, namedPiece_front hname head_skipSeparators, if_neg h]

/-- The value of the first piece with the name, unless it is empty or does not fit. -/
theorem cookieValueFrom_iff (hname : CookieName name) (p v : Text) : cookieValueFrom name outSize p = some v ↔
    namedPiece name p = some (name ++ '=' :: v) ∧ 1 ≤ v.length ∧ v.length < outSize := by
  fun_induction cookieValueFrom name outSize p with
  | case1 => simp [namedPiece_nil]
  | case2 p _ hstarts value hbad =>
      rw [namedPiece_of_name hname ((startsWithName_iff hname _).mp hstarts)]
      refine iff_of_false nofun ?_
      rintro ⟨heq, hpos, hfits⟩
      have hvalue : value = v := (List.cons.inj (List.append_cancel_left (Option.some.inj heq))).2
      rcases hbad with hempty | hlong
      · rw [← hvalue, hempty] at hpos
        exact absurd hpos (by decide)
      · rw [hvalue] at hlong
        omega
  | case3 p _ hstarts value hgood =>
      rw [namedPiece_of_name hname ((startsWithName_iff hname _).mp hstarts)]
      rw [not_or, not_le] at hgood
      constructor
      · intro heq
        rw [← Option.some.inj heq]
        exact ⟨rfl, List.length_pos_iff.mpr hgood.1, hgood.2⟩
      · rintro ⟨heq, -⟩
        exact congrArg some (List.cons.inj (List.append_cancel_left (Option.some.inj heq))).2
  | case4 p _ hother hend =>
      rw [startsWithName_iff hname] at hother
      rw [namedPiece_of_other hname hother, hend, namedPiece_nil]
      simp
  | case5 p _ hother c rest hrest ih =>
      rw [startsWithName_iff hname] at hother
      rw [namedPiece_of_other hname hother, hrest]
      exact ih

/-- `cookie_value` finds the first piece that starts with the name and an equals sign, and takes what follows. -/
theorem cookieValue_iff (cookie name : Text) (outSize : Nat) (hname : CookieName name) (v : Text) :
    cookieValue (some cookie) name outSize = some v ↔
      (cookiePieces cookie).find? ((name ++ ['=']).isPrefixOf ·) = some (name ++ '=' :: v) ∧
        1 ≤ v.length ∧ v.length < outSize :=
  cookieValueFrom_iff hname cookie v

theorem cookieValue_session :
    cookieValue (some "a=s=1; xs=2;; s=3".toList) "s".toList 65 = some "3".toList :=
  (cookieValue_iff "a=s=1; xs=2;; s=3".toList "s".toList 65
    ⟨by decide, by decide, by decide, by decide, by decide⟩ "3".toList).mpr (by decide)

end Cookies

/-! ## The origin -/

/-- What can follow the authority of a URL. -/
def StartsPath (rest : Text) : Prop := rest = [] ∨ rest.head? = some '/'

section Origin

variable {server : Server} {r : Request} {scheme authority path value : Text}

theorem takeWhile_authority (hauthority : '/' ∉ authority) (hpath : StartsPath path) :
    (authority ++ path).takeWhile (· ≠ '/') = authority := by
  have hpos : ∀ c ∈ authority, decide (c ≠ '/') = true :=
    fun c hc => decide_eq_true fun heq => hauthority (heq ▸ hc)
  rw [List.takeWhile_append_of_pos hpos]
  rcases hpath with rfl | hslash
  · simp
  · cases path with
    | nil => cases hslash
    | cons c path =>
        rw [Option.some.inj hslash]
        simp

theorem strstr_url (hscheme : ':' ∉ scheme) (rest : Text) :
    strstr (scheme ++ "://".toList ++ rest) "://".toList = some ("://".toList ++ rest) := by
  rw [List.append_assoc]
  exact strstr_append hscheme "//".toList rest

theorem takeWhile_eq_authority_iff (hauthority : '/' ∉ authority) (rest : Text) :
    rest.takeWhile (· ≠ '/') = authority ↔ ∃ path, rest = authority ++ path ∧ StartsPath path := by
  constructor
  · intro heq
    have hcut : rest.takeWhile (· ≠ '/') ++ rest.dropWhile (· ≠ '/') = rest := List.takeWhile_append_dropWhile
    refine ⟨rest.dropWhile (· ≠ '/'), by rw [← heq, hcut], ?_⟩
    cases hpath : rest.dropWhile (· ≠ '/') with
    | nil => exact Or.inl rfl
    | cons c path =>
        have hhead := List.head?_dropWhile_not (· ≠ '/') rest
        rw [hpath] at hhead
        exact Or.inr (by simpa using hhead)
  · rintro ⟨path, rfl, hpath⟩
    exact takeWhile_authority hauthority hpath

/-- The comparisons of `same_origin_request` for a value with the scheme of the site. -/
theorem authority_matches_iff {rest : Text} :
    (authority.length = (rest.takeWhile (· ≠ '/')).length ∧
      strncmpEq (authority ++ path) rest authority.length = true) ↔ rest.takeWhile (· ≠ '/') = authority := by
  have hfront : rest.takeWhile (· ≠ '/') <+: rest := List.takeWhile_prefix _
  constructor
  · rintro ⟨hlen, hcompare⟩
    have hle : authority.length ≤ rest.length := hlen ▸ hfront.length_le
    have hauthority := (strncmpEq_iff_of_le hle path).mp hcompare
    exact (List.prefix_of_prefix_length_le hfront hauthority hlen.ge).eq_of_length hlen.symm
  · rintro rfl
    exact ⟨rfl, (strncmpEq_iff_of_le hfront.length_le path).mpr hfront⟩

/-- `same_origin_request` lets through the URLs with the scheme and the authority of the site. -/
theorem sameOriginRequest_iff (server : Server) (r : Request) (scheme authority path : Text)
    (hbase : server.baseUrl = scheme ++ "://".toList ++ (authority ++ path)) (hscheme : ':' ∉ scheme)
    (hauthority : '/' ∉ authority) (hpath : StartsPath path) :
    sameOriginRequest server r = true ↔ ∃ value rest, r.origin.or r.referer = some value ∧
      value = scheme ++ "://".toList ++ (authority ++ rest) ∧ StartsPath rest := by
  have hlast : (scheme ++ "://".toList).getLast? ≠ some '\x00' := by simp
  have hlen : (scheme ++ "://".toList ++ (authority ++ path)).length - (authority ++ path).length =
      (scheme ++ "://".toList).length := by
    rw [List.length_append, Nat.add_sub_cancel]
  have hdrop : ∀ t : Text, ("://".toList ++ t).drop 3 = t := fun _ => rfl
  cases hvalue : r.origin.or r.referer with
  | none => simp [sameOriginRequest, hvalue]
  | some value =>
      have hcompare := strncmpEq_iff_prefix hlast (authority ++ path) value
      by_cases hfront : scheme ++ "://".toList <+: value
      · have hsame := hcompare.mpr hfront
        obtain ⟨rest, rfl⟩ := hfront
        simp only [sameOriginRequest, hvalue, hbase, strstr_url hscheme, hdrop, hlen, hsame,
          takeWhile_authority hauthority hpath, Bool.and_true, Bool.and_eq_true, decide_eq_true_eq]
        rw [authority_matches_iff, takeWhile_eq_authority_iff hauthority]
        simp
      · have hdiffers := Bool.eq_false_iff.mpr (hcompare.not.mpr hfront)
        refine iff_of_false ?_ ?_
        · cases hfound : strstr value "://".toList with
          | none =>
              simp only [sameOriginRequest, hvalue, hbase, strstr_url hscheme, hfound]
              exact Bool.false_ne_true
          | some found =>
              simp only [sameOriginRequest, hvalue, hbase, strstr_url hscheme, hfound, hdrop, hlen, hdiffers,
                Bool.and_false]
              exact Bool.false_ne_true
        · rintro ⟨value', rest, heq, rfl, -⟩
          rw [Option.some.inj heq] at hfront
          exact hfront (List.prefix_append _ _)

theorem sameOriginRequest_localhost :
    sameOriginRequest {} { referer := some "http://localhost:8080/?page=login".toList } = true :=
  (sameOriginRequest_iff {} { referer := some "http://localhost:8080/?page=login".toList } "http".toList
    "localhost:8080".toList [] (by decide) (by decide) (by decide) (Or.inl rfl)).mpr
    ⟨_, "/?page=login".toList, rfl, by decide, Or.inr rfl⟩

def occurrences (pattern s : Text) : Nat := s.tails.countP (pattern.isPrefixOf ·)

/-- Behind the authority a second separator does no harm. -/
theorem second_separator_accepted : ¬ ∀ (server : Server) (r : Request) (value : Text),
    r.origin.or r.referer = some value → sameOriginRequest server r = true →
      occurrences "://".toList value ≤ 1 := by
  intro h
  exact absurd (h {} { referer := some "http://localhost:8080/://".toList } _ rfl (by decide)) (by decide)

end Origin

end Tle.Web
