import Tle.Html.Views
import Tle.Lib.Buffer
import Tle.Lib.Run
import Tle.Lib.Table

/-!
# The form parser of `web.c`

libmicrohttpd cuts the body of a POST request into calls of `post_iterator`. Each call hands over a
chunk of the value of one field, NUL-terminated, with its offset in the value.
-/

namespace Tle.Web
open Tle.Lib Tle.Html

inductive AdminAction where
  | rejudge
  | toggleHidden
  deriving DecidableEq

/-- `struct connection_info`, as `calloc` leaves it and the calls fill it. -/
structure ConnectionInfo where
  code : Option Text := none
  taskPk : Int := 0
  isPublic : Bool := false
  isAnonymous : Bool := false
  fileFieldSeen : Bool := false
  codeFieldSeen : Bool := false
  csrf : Buffer 65 := .zero 65
  username : Buffer 32 := .zero 32
  password : Buffer 256 := .zero 256
  adminAction : Option AdminAction := none
  adminId : BitVec 32 := 0

structure IteratorCall where
  key : Text
  data : Text
  off : Nat := 0

/-! ## `post_iterator` -/

inductive Field where
  | taskPk
  | file
  | code
  | csrf
  | isPublic
  | isAnonymous
  | username
  | password
  | rejudge
  | toggleHidden
  | done
  deriving DecidableEq

def Field.named (key : Text) : Option Field :=
  if key = "task_pk".toList then some taskPk
  else if key = "file".toList then some file
  else if key = "code".toList then some code
  else if key = "csrf".toList then some csrf
  else if key = "is_public".toList then some isPublic
  else if key = "is_anonymous".toList then some isAnonymous
  else if key = "username".toList then some username
  else if key = "password".toList then some password
  else if key = "rejudge".toList then some rejudge
  else if key = "toggle_hidden".toList then some toggleHidden
  else if key = "DONE".toList then some done
  else none

/-- Either field of the source text; the length of all chunks together is bounded. -/
def ConnectionInfo.appendCode (conn : ConnectionInfo) (data : Text) : ConnectionInfo × Bool :=
  let current := conn.code.getD []
  if maxCodeBytes < current.length ∨ maxCodeBytes - current.length < data.length then (conn, false)
  else ({ conn with code := some (current ++ data) }, true)

/-- Either button of the administrator. -/
def ConnectionInfo.chooseAction (conn : ConnectionInfo) (action : AdminAction) (data : Text) :
    ConnectionInfo × Bool :=
  match strtoulWhole data with
  | none => (conn, false)
  | some value =>
      if 2 ^ 32 ≤ value then (conn, false)
      else ({ conn with adminAction := some action, adminId := BitVec.ofNat 32 value }, true)

/-- The fields after the call, and whether it returns `MHD_YES`. -/
def postIterator (conn : ConnectionInfo) (call : IteratorCall) : ConnectionInfo × Bool :=
  let data := cstr call.data
  match Field.named call.key with
  | some .taskPk => ({ conn with taskPk := atoi data }, true)
  | some .file =>
      -- the flag is set even when the chunk is then refused
      { conn with fileFieldSeen := conn.fileFieldSeen || call.data ≠ [] }.appendCode call.data
  | some .code =>
      { conn with codeFieldSeen := conn.codeFieldSeen || call.data ≠ [] }.appendCode call.data
  | some .csrf =>
      match conn.csrf.put call.off call.data with
      | none => (conn, false)
      | some csrf => ({ conn with csrf }, true)
  | some .isPublic => ({ conn with isPublic := data = "on".toList }, true)
  | some .isAnonymous => ({ conn with isAnonymous := data = "on".toList }, true)
  | some .username =>
      match conn.username.put call.off call.data with
      | none => (conn, false)
      | some username => ({ conn with username }, true)
  | some .password =>
      match conn.password.put call.off call.data with
      | none => (conn, false)
      | some password => ({ conn with password }, true)
  | some .rejudge => conn.chooseAction .rejudge data
  | some .toggleHidden => conn.chooseAction .toggleHidden data
  | some .done => (conn, true)
  | none => (conn, false)

/-! ## The post processor -/

/-- What the calls so far have made of the form. After a call that returns `MHD_NO` the post processor
makes no other. -/
structure Parse where
  conn : ConnectionInfo := {}
  aborted : Bool := false

def Parse.call (p : Parse) (call : IteratorCall) : Parse :=
  if p.aborted then p
  else
    let (conn, yes) := postIterator p.conn call
    { conn, aborted := !yes }

def postProcess (p : Parse) (calls : List IteratorCall) : Parse := run Parse.call p calls

/-- How the body is cut into buffers makes no difference. -/
theorem postProcess_append (p : Parse) (calls calls' : List IteratorCall) :
    postProcess p (calls ++ calls') = postProcess (postProcess p calls) calls' := run_append calls calls'

/-! ## The source text -/

def IteratorCall.carriesCode (call : IteratorCall) : Bool :=
  Field.named call.key = some .file || Field.named call.key = some .code

/-- The bytes of the source text in a body, in the order of their chunks. -/
def uploadedCode (calls : List IteratorCall) : Text :=
  (calls.filter (·.carriesCode)).flatMap (·.data)

theorem uploadedCode_snoc (calls : List IteratorCall) (call : IteratorCall) :
    uploadedCode (calls ++ [call]) =
      uploadedCode calls ++ if call.carriesCode then call.data else [] := by
  cases h : call.carriesCode <;> simp [uploadedCode, h]

variable {conn conn' : ConnectionInfo} {call : IteratorCall}

theorem code_of_appendCode {data : Text} (h : (conn.appendCode data).2 = true) :
    (conn.appendCode data).1.code.getD [] = conn.code.getD [] ++ data := by
  simp only [ConnectionInfo.appendCode] at h ⊢
  split at h
  · cases h
  · rename_i hroom
    simp only [if_neg hroom, Option.getD_some]

theorem code_of_chooseAction (action : AdminAction) (data : Text) :
    (conn.chooseAction action data).1.code = conn.code := by
  unfold ConnectionInfo.chooseAction
  split
  · rfl
  · split <;> rfl

/-- A call that returns `MHD_YES` has added its chunk of source text, and nothing else, to the code. -/
theorem code_of_postIterator (h : (postIterator conn call).2 = true) :
    (postIterator conn call).1.code.getD [] =
      conn.code.getD [] ++ if call.carriesCode then call.data else [] := by
  have hcarries : call.carriesCode =
      (Field.named call.key = some .file || Field.named call.key = some .code : Bool) := rfl
  unfold postIterator at h ⊢
  rcases hfield : Field.named call.key with _ | field
  · simp [hfield] at h
  · cases field with
    | file =>
        simp only [hfield] at h ⊢
        simpa [hcarries, hfield] using code_of_appendCode h
    | code =>
        simp only [hfield] at h ⊢
        simpa [hcarries, hfield] using code_of_appendCode h
    | csrf | username | password =>
        simp only [hcarries, hfield]
        split <;> simp
    | rejudge | toggleHidden => simp [hcarries, hfield, code_of_chooseAction]
    | taskPk | isPublic | isAnonymous | done => simp [hcarries, hfield]

/-- As long as no call returns `MHD_NO`, the code is all of the source text so far. -/
theorem code_of_postProcess (calls : List IteratorCall) (h : (postProcess {} calls).aborted = false) :
    (postProcess {} calls).conn.code.getD [] = uploadedCode calls := by
  induction calls using List.reverseRecOn with
  | nil => rfl
  | append_singleton calls call ih =>
      simp only [postProcess, run_snoc] at h ih ⊢
      generalize run Parse.call {} calls = p at h ih ⊢
      unfold Parse.call at h ⊢
      split at h
      · rename_i haborted
        rw [haborted] at h; cases h
      · rename_i hgoes
        have hyes : (postIterator p.conn call).2 = true := by simpa using h
        rw [if_neg hgoes, code_of_postIterator hyes, ih (by simpa using hgoes), uploadedCode_snoc]

end Tle.Web
