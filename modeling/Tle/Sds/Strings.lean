import Tle.Lib.Comp
import Tle.Lib.Growth
import Tle.Lib.Ledger
import Tle.Lib.Scan

/-!
# The strings of `sds.c`

Those functions of `sds.c` that the program calls. A byte that is copied beyond the end of a block, a block that is
freed twice, a null pointer that is followed and an assertion that fails have no outcome.
-/

namespace Tle.Sds
open Tle.Lib Tle.Lib.Comp

/-! ## Headers -/

inductive HeaderType where
  | type5
  | type8
  | type16
  | type32
  | type64
  deriving DecidableEq

/-- The bits of the length; a `size_t` has 64. -/
def HeaderType.bits : HeaderType → Nat
  | type5 => 5
  | type8 => 8
  | type16 => 16
  | type32 => 32
  | type64 => 64

def sdsHdrSize : HeaderType → Nat
  | .type5 => 1
  | .type8 => 3
  | .type16 => 5
  | .type32 => 9
  | .type64 => 17

def sdsReqType (stringSize : Nat) : HeaderType :=
  if stringSize < 2 ^ 5 then .type5
  else if stringSize < 2 ^ 8 then .type8
  else if stringSize < 2 ^ 16 then .type16
  else if stringSize < 2 ^ 32 then .type32
  else .type64

/-- A block with its header, and its bytes from `s['\x00']` on. The smallest header does not store `alloc`. -/
structure Sdshdr where
  block : Nat
  type : HeaderType
  len : Nat
  alloc : Nat
  buf : Text

def sdslen (s : Sdshdr) : Nat := s.len

def sdsavail (s : Sdshdr) : Nat :=
  match s.type with
  | .type5 => 0
  -- the difference of two 32-bit numbers wraps around before it is a `size_t`; that of shorter ones is an `int`
  | .type32 => (s.alloc + 2 ^ 32 - s.len) % 2 ^ 32
  | _ => (s.alloc + 2 ^ 64 - s.len) % 2 ^ 64

def sdssetlen (s : Sdshdr) (newlen : Nat) : Sdshdr := { s with len := newlen % 2 ^ s.type.bits }

def sdssetalloc (s : Sdshdr) (newlen : Nat) : Sdshdr :=
  if s.type = .type5 then s else { s with alloc := newlen % 2 ^ s.type.bits }

/-! ## Memory -/

/-- Which allocations succeed, and what is in a new block. -/
structure Allocator where
  allocates : Nat → Bool
  contents : Nat → Nat → Char

variable (m : Allocator)

def allocate : Comp Ledger (Option Nat) := fun heap => some (heap.allocate (m.allocates heap.count))

def deallocate (block : Nat) : Comp Ledger Unit := fun heap => (heap.free block).map fun heap => ((), heap)

/-- The block may move. -/
def reallocate (block : Nat) : Comp Ledger (Option Nat) := do
  match ← allocate m with
  | none => return none
  | some moved =>
      deallocate block
      return some moved

def Allocator.fresh (block size : Nat) : Text := (List.range size).map (m.contents block)

/-- `memcpy(s + off, t, t.length)` -/
def copy (s : Sdshdr) (off : Nat) (t : Text) : Comp Ledger Sdshdr :=
  if off + t.length ≤ s.buf.length then
    pure { s with buf := s.buf.take off ++ (t ++ s.buf.drop (off + t.length)) }
  else undefined

/-! ## New strings -/

/-- The header of a new string. -/
def Sdshdr.make (block : Nat) (type : HeaderType) (len alloc : Nat) (buf : Text) : Sdshdr :=
  sdssetalloc { block, type, len := len % 2 ^ type.bits, alloc := 0, buf } alloc

/-- `init` is what the pointer, unless it is null, points to. -/
def sdsnewlen (init : Option (Text)) (initlen : Nat) : Comp Ledger (Option Sdshdr) := do
  -- empty strings are usually created in order to append
  let type := if sdsReqType initlen = .type5 ∧ initlen = 0 then .type8 else sdsReqType initlen
  let size := (sdsHdrSize type + initlen + 1) % 2 ^ 64
  match ← allocate m with
  | none => return none
  | some block =>
      match init with
      | none =>
          let zeros := List.replicate (size - sdsHdrSize type) '\x00'
          return some (← copy (.make block type initlen initlen zeros) initlen ['\x00'])
      | some bytes =>
          if bytes.length < initlen then undefined
          else
            let s ← copy (.make block type initlen initlen (m.fresh block (size - sdsHdrSize type))) 0
              (bytes.take initlen)
            return some (← copy s initlen ['\x00'])

def sdsfree : Option Sdshdr → Comp Ledger Unit
  | none => pure ()
  | some s => deallocate s.block

/-! ## Appending -/

/-- `sdsMakeRoomFor`, where the header keeps its type. -/
def enlarge (s : Sdshdr) (newlen size : Nat) : Comp Ledger (Option Sdshdr) := do
  match ← reallocate m s.block with
  | none => return none
  | some block =>
      let buf := (s.buf ++ m.fresh block size).take (size - sdsHdrSize s.type)
      return some (sdssetalloc { s with block, buf } newlen)

/-- `sdsMakeRoomFor`, where the string has to move behind another header. -/
def move (s : Sdshdr) (type : HeaderType) (newlen size : Nat) : Comp Ledger (Option Sdshdr) := do
  match ← allocate m with
  | none => return none
  | some block =>
      if s.buf.length < s.len + 1 then undefined
      else
        let moved ← copy (.make block type s.len newlen (m.fresh block (size - sdsHdrSize type))) 0
          (s.buf.take (s.len + 1))
        deallocate s.block
        return some moved

def sdsMakeRoomFor (s : Sdshdr) (addlen : Nat) : Comp Ledger (Option Sdshdr) :=
  if addlen ≤ sdsavail s then pure (some s)
  else
    let reqlen := (s.len + addlen) % 2 ^ 64
    let newlen := grow 20 reqlen % 2 ^ 64
    let type := if sdsReqType newlen = .type5 then .type8 else sdsReqType newlen
    let size := (sdsHdrSize type + newlen + 1) % 2 ^ 64
    if size ≤ reqlen then undefined
    else if s.type = type then enlarge m s newlen size
    else move m s type newlen size

def sdscatlen (s : Sdshdr) (t : Text) : Comp Ledger (Option Sdshdr) := do
  let curlen := sdslen s
  match ← sdsMakeRoomFor m s t.length with
  | none => return none
  | some s =>
      let s ← copy s curlen t
      let s := sdssetlen s (curlen + t.length)
      return some (← copy s (curlen + t.length) ['\x00'])

/-- `sdsIncrLen(s, -1)`; nothing calls it with another number. -/
def sdsIncrLen (s : Sdshdr) : Comp Ledger Sdshdr :=
  if s.len < 1 then undefined
  else
    let s := sdssetlen s (s.len - 1)
    copy s s.len ['\x00']

/-! ## `sdscatvprintf` -/

/-- `if (buf != staticbuf) s_free(buf)`; the static buffer is no block. -/
def release : Option Nat → Comp Ledger Unit
  | none => pure ()
  | some block => deallocate block

/-- A round of the loop with a buffer of `buflen` bytes. `text` is what the format comes to, unless that fails; the
loop ends with what is in the buffer. -/
def formatRound (text : Option Text) (buffer : Option Nat × Nat) :
    Comp Ledger (Round (Option Nat × Nat) (Option (Option Nat × Text))) := do
  let (buf, buflen) := buffer
  match text with
  | none =>
      release buf
      return .done none
  | some text =>
      if buflen ≤ text.length then
        release buf
        match ← allocate m with
        | none => return .done none
        | some block => return .next (some block, text.length + 1)
      else return .done (some (buf, text))

/-- The static buffer, unless the format is long. -/
def firstBuffer (fmtLength : Nat) : Comp Ledger (Option (Option Nat × Nat)) := do
  if 1024 < fmtLength * 2 then
    match ← allocate m with
    | none => return none
    | some block => return some (some block, fmtLength * 2)
  else
    return some (none, 1024)

/-- The buffer with the text in it, unless there is none. A third buffer has no outcome. -/
def formatText (fmtLength : Nat) (text : Option Text) : Comp Ledger (Option (Option Nat × Text)) := do
  match ← firstBuffer m fmtLength with
  | none => return none
  | some buffer => loop 2 (formatRound m text) buffer

def sdscatvprintf (s : Sdshdr) (fmtLength : Nat) (text : Option Text) : Comp Ledger (Option Sdshdr) := do
  match ← formatText m fmtLength text with
  | none => return none
  | some (buf, bytes) =>
      let t ← sdscatlen m s bytes
      release buf
      return t

/-! ## What the callers do with them -/

/-- A call that appends to the string that the call before has returned. -/
inductive Append where
  /-- `sdscat` of a C string, or `sdscatlen` -/
  | cat (t : Text)
  /-- `sdscatprintf`, with the length of the format and what it comes to -/
  | catprintf (fmtLength : Nat) (text : Text)

def Append.text : Append → Text
  | cat t => t
  | catprintf _ text => text

def Append.run (out : Option Sdshdr) (a : Append) : Comp Ledger (Option Sdshdr) :=
  match out with
  | none => undefined
  | some out =>
      match a with
      | .cat t => sdscatlen m out t
      | .catprintf fmtLength text => sdscatvprintf m out fmtLength (some text)

/-- `sdsnewlen`, and then one call after another. -/
def build (init : Text) (calls : List Append) : Comp Ledger (Option Sdshdr) := do
  let out ← sdsnewlen m (some init) init.length
  calls.foldlM (Append.run m) out

end Tle.Sds
