import Tle.Lib.Comp
import Tle.Lib.Double
import Tle.Lib.Json
import Tle.Lib.Ledger

/-!
# `cJSON_ParseWithLength`

The parser as `read_tasks` calls it, on a buffer of `content.length` bytes. A byte that is read outside of the
buffer, a byte that is written outside of its block, a block that is freed twice, a loop without an end and calls
nested too deeply have no outcome.
-/

namespace Tle.Cjson
open Tle.Lib Tle.Lib.Comp

/-! ## Items -/

inductive ItemType where
  | invalid
  | false
  | true
  | null
  | number
  | string
  | array
  | object
  deriving DecidableEq

/-- A `char *` of an item: its block, and the bytes in it before the terminating one. -/
structure Str where
  block : Nat
  bytes : Text

/-- `cJSON`; the list that its children are linked into stands for `child`, `next` and `prev`. -/
structure Item where
  block : Nat
  type : ItemType
  valuestring : Option Str
  valueint : Int
  valuedouble : Double
  string : Option Str
  child : List Item

def Item.zeroed (block : Nat) : Item where
  block := block
  type := .invalid
  valuestring := none
  valueint := 0
  valuedouble := .finite 0
  string := none
  child := []

/-! ## The buffer -/

/-- The bytes, and which of the allocations succeed. -/
structure Input where
  content : Text
  allocates : Nat → Bool

structure ParseBuffer where
  offset : Nat
  depth : Nat
  heap : Ledger

abbrev Parse (α : Type) := Comp ParseBuffer α

def nestingLimit : Nat := 1000

variable (input : Input)

/-- `can_access_at_index` -/
def canAccess (index : Nat) : Parse Bool := do
  return (← get).offset + index < input.content.length

/-- `buffer_at_offset(buffer)[index]` -/
def byteAt (index : Nat) : Parse Char := do
  ofOption input.content[(← get).offset + index]?

/-- The byte at the offset can be accessed, and it is `c`. -/
def isAt (c : Char) : Parse Bool := do
  if ← canAccess input 0 then
    return (← byteAt input 0) = c
  else
    return false

/-- `can_read`, and the bytes at the offset are those of `word`. -/
def isAtWord (word : Text) : Parse Bool := do
  let offset := (← get).offset
  return offset + word.length ≤ input.content.length && (input.content.drop offset).take word.length = word

def advance (n : Nat) : Parse Unit := modify fun s => { s with offset := s.offset + n }

def stepBack : Parse Unit := do
  if (← get).offset = 0 then undefined else modify fun s => { s with offset := s.offset - 1 }

def setOffset (offset : Nat) : Parse Unit := modify fun s => { s with offset }

/-- A round of the loop of `buffer_skip_whitespace`. -/
def skipSpace : Parse (Round Unit Unit) := do
  if ← canAccess input 0 then
    if (← byteAt input 0) ≤ ' ' then
      advance 1
      return .next ()
    else
      return .done ()
  else
    return .done ()

def bufferSkipWhitespace : Parse Unit := do
  if ← canAccess input 0 then
    loop (input.content.length + 1) (fun _ => skipSpace input) ()
    if (← get).offset = input.content.length then stepBack else return
  else
    return

def skipUtf8Bom : Parse Unit := do
  if ← canAccess input 4 then
    if ← isAtWord input [Char.ofNat 0xEF, Char.ofNat 0xBB, Char.ofNat 0xBF] then advance 3 else return
  else
    return

/-! ## Memory -/

def allocate : Parse (Option Nat) := fun s =>
  let r := s.heap.allocate (input.allocates s.heap.count)
  some (r.1, { s with heap := r.2 })

def deallocate (block : Nat) : Parse Unit := fun s =>
  (s.heap.free block).map fun heap => ((), { s with heap })

/-- `cJSON_New_Item` -/
def newItem : Parse (Option Item) := do
  return (← allocate input).map Item.zeroed

def deallocateString : Option Str → Parse Unit
  | some s => deallocate s.block
  | none => pure ()

/-- A null pointer is not passed on. -/
def ifItems (items : List Item) (p : Parse Unit) : Parse Unit := if items.isEmpty then pure () else p

/-- The body of the loop of `cJSON_Delete`; no item of the parser is a reference. -/
def deleteItem (delete : List Item → Parse Unit) (item : Item) : Parse Unit := do
  ifItems item.child (delete item.child)
  deallocateString item.valuestring
  deallocateString item.string
  deallocate item.block

/-- `cJSON_Delete`, with calls nested less than `level` deep. -/
def cJSONDelete : Nat → List Item → Parse Unit
  | 0, _ => undefined
  | level + 1, items => items.forM (deleteItem (cJSONDelete level))

/-! ## Numbers -/

/-- The characters that are copied for `strtod`. -/
def isNumberByte (c : Char) : Bool := c.isDigit || "+-eE.".toList.contains c

/-- The characters of a sign. -/
def signLength (s : Text) : Nat := if s.head? = some '-' ∨ s.head? = some '+' then 1 else 0

/-- What `strtod` reads of `s` for an exponent. -/
def exponentLength : Text → Nat
  | [] => 0
  | e :: t =>
      let digits := (t.drop (signLength t)).takeWhile Char.isDigit
      if (e = 'e' ∨ e = 'E') ∧ digits ≠ [] then 1 + signLength t + digits.length else 0

/-- The digits behind a decimal point. -/
def fractionDigits : Text → Text
  | '.' :: t => t.takeWhile Char.isDigit
  | _ => []

/-- How many characters `strtod` reads of such characters. -/
def decimalLength (s : Text) : Nat :=
  let whole := (s.drop (signLength s)).takeWhile Char.isDigit
  let rest := s.drop (signLength s + whole.length)
  let point := if rest.head? = some '.' then 1 else 0
  let fraction := fractionDigits rest
  if whole = [] ∧ fraction = [] then 0
  else signLength s + whole.length + point + fraction.length + exponentLength (rest.drop (point + fraction.length))

/-- `(int)number`, saturated. -/
def saturated : Double → Int
  | .finite x => (Json.number x).valueint
  | .infinite negative => if negative then -2 ^ 31 else 2 ^ 31 - 1
  | .nan => -2 ^ 31

/-- The loop that copies the number; `read` are the characters so far. -/
def copyNumber (read : Text) : Parse (Round Text Text) := do
  if read.length < 63 then
    if ← canAccess input read.length then
      let c ← byteAt input read.length
      if isNumberByte c then return .next (read ++ [c]) else return .done read
    else
      return .done read
  else
    return .done read

/-- `none` stands for `false`, here and below: the item is then as it was. -/
def parseNumber (item : Item) : Parse (Option Item) := do
  let number_c_string ← loop 64 (copyNumber input) []
  if decimalLength number_c_string = 0 then
    return none
  else
    let number := strtod number_c_string
    advance (decimalLength number_c_string)
    return some { item with type := .number, valueint := saturated number, valuedouble := number }

/-! ## Strings -/

/-- The byte at a place of the buffer. -/
def contentAt (i : Nat) : Parse Char := ofOption input.content[i]?

/-- The four bytes of a code unit. -/
def hexAt (i : Nat) : Parse Text :=
  ofOption (if i + 4 ≤ input.content.length then some ((input.content.drop i).take 4) else none)

/-- The loop of `parse_hex4`, with what it has read. -/
def hexFrom (h : Nat) : Text → Nat
  | [] => h
  | c :: digits => (hexDigit c).elim 0 fun d => hexFrom (16 * h + d) digits

def parseHex4 (digits : Text) : Nat := hexFrom 0 digits

/-- The bytes up to `position`, from the last to the first one. -/
def utf8From : Nat → Nat → Nat → Text → Text
  | 0, mark, codepoint, bytes => Char.ofNat ((codepoint ||| mark) &&& 0xFF) :: bytes
  | position + 1, mark, codepoint, bytes =>
      utf8From position mark (codepoint >>> 6) (Char.ofNat ((codepoint ||| 0x80) &&& 0xBF) :: bytes)

def encodeUtf8 (codepoint : Nat) : Option Text :=
  if codepoint < 0x80 then some [Char.ofNat (codepoint &&& 0x7F)]
  else if codepoint < 0x800 then some (utf8From 1 0xC0 codepoint [])
  else if codepoint < 0x10000 then some (utf8From 2 0xE0 codepoint [])
  else if codepoint ≤ 0x10FFFF then some (utf8From 3 0xF0 codepoint [])
  else none

/-- The bytes that a literal stands for, and its length. -/
def utf16LiteralToUtf8 (input_pointer input_end : Nat) : Parse (Option (Text × Nat)) := do
  if input_end < input_pointer + 6 then
    return none
  else
    let first_code := parseHex4 (← hexAt input (input_pointer + 2))
    if 0xDC00 ≤ first_code ∧ first_code ≤ 0xDFFF then
      return none
    else if 0xD800 ≤ first_code ∧ first_code ≤ 0xDBFF then
      if input_end < input_pointer + 6 + 6 then
        return none
      else if (← contentAt input (input_pointer + 6)) ≠ '\\' then
        return none
      else if (← contentAt input (input_pointer + 7)) ≠ 'u' then
        return none
      else
        let second_code := parseHex4 (← hexAt input (input_pointer + 8))
        if second_code < 0xDC00 ∨ 0xDFFF < second_code then
          return none
        else
          let codepoint := 0x10000 + (((first_code &&& 0x3FF) <<< 10) ||| (second_code &&& 0x3FF))
          return (encodeUtf8 codepoint).map (·, 12)
    else
      return (encodeUtf8 first_code).map (·, 6)

/-- The loop that looks for the end of the literal and counts its escapes; `none` for `goto fail`. -/
def scanLiteral (state : Nat × Nat) : Parse (Round (Nat × Nat) (Option (Nat × Nat))) := do
  let (input_end, skipped_bytes) := state
  if input_end < input.content.length then
    let c ← contentAt input input_end
    if c = '"' then
      return .done (some state)
    else if c = '\\' then
      if input.content.length ≤ input_end + 1 then
        return .done none
      else
        return .next (input_end + 2, skipped_bytes + 1)
    else
      return .next (input_end + 1, skipped_bytes)
  else
    return .done (some state)

/-- Writes behind `output` into a block of `size` bytes. -/
def write (size : Nat) (output bytes : Text) : Parse Text :=
  if output.length + bytes.length ≤ size then pure (output ++ bytes) else undefined

/-- The escapes of two characters. -/
def simpleEscape (c : Char) : Option Char :=
  if c = 'b' then some (Char.ofNat 8)
  else if c = 'f' then some (Char.ofNat 12)
  else if c = 'n' then some '\n'
  else if c = 'r' then some '\r'
  else if c = 't' then some '\t'
  else if c = '"' ∨ c = '\\' ∨ c = '/' then some c
  else none

/-- The loop through the literal. It ends with the place it has come to, and with what it has written unless it
has failed. -/
def unescape (input_end size : Nat) (state : Nat × Text) : Parse (Round (Nat × Text) (Nat × Option Text)) := do
  let (input_pointer, output) := state
  if input_pointer < input_end then
    let c ← contentAt input input_pointer
    if c ≠ '\\' then
      let output ← write size output [c]
      return .next (input_pointer + 1, output)
    else if input_end < input_pointer + 1 then
      return .done (input_pointer, none)
    else
      let e ← contentAt input (input_pointer + 1)
      if e = 'u' then
        match ← utf16LiteralToUtf8 input input_pointer input_end with
        | none => return .done (input_pointer, none)
        | some (bytes, sequence_length) =>
            let output ← write size output bytes
            return .next (input_pointer + sequence_length, output)
      else
        match simpleEscape e with
        | none => return .done (input_pointer, none)
        | some b =>
            let output ← write size output [b]
            return .next (input_pointer + 2, output)
  else
    return .done (input_pointer, some output)

/-- The second half of `parse_string`: the literal from `start` to `input_end` goes to a new block. -/
def unescapeLiteral (item : Item) (start input_end allocation_length : Nat) : Parse (Option Item) := do
  match ← allocate input with
  | none =>
      setOffset (start + 1)
      return none
  | some block =>
      let size := allocation_length + 1
      match ← loop (input.content.length + 1) (unescape input input_end size) (start + 1, []) with
      | (input_pointer, none) =>
          deallocate block
          setOffset input_pointer
          return none
      | (_, some output) =>
          let _ ← write size output ['\x00']
          setOffset (input_end + 1)
          return some { item with type := .string, valuestring := some { block, bytes := output } }

def parseString (item : Item) : Parse (Option Item) := do
  let start := (← get).offset
  if (← byteAt input 0) ≠ '"' then
    setOffset (start + 1)
    return none
  else
    match ← loop (input.content.length + 1) (scanLiteral input) (start + 1, 0) with
    | none =>
        setOffset (start + 1)
        return none
    | some (input_end, skipped_bytes) =>
        if input.content.length ≤ input_end then
          setOffset (start + 1)
          return none
        else if (← contentAt input input_end) ≠ '"' then
          setOffset (start + 1)
          return none
        else
          unescapeLiteral input item start input_end (input_end - start - skipped_bytes)

/-! ## Values -/

/-- `goto fail`, with the items read so far. -/
def dropItems (items : List Item) : Parse (Option Item) := do
  ifItems items (cJSONDelete (nestingLimit + 1) items)
  return none

/-- `success`, with `items` as the children. -/
def closeItem (item : Item) (type : ItemType) (items : List Item) : Parse (Option Item) := do
  modify fun s => { s with depth := s.depth - 1, offset := s.offset + 1 }
  return some { item with type, child := items }

/-- What `parse_array` and `parse_object` share: the brackets, the separators and the list of what `element` reads.
A round of the loop says whether it has failed. -/
def parseContainer (opens : Parse Bool) (closing : Char) (type : ItemType)
    (element : List Item → Parse (Round (List Item) (List Item × Bool))) (item : Item) : Parse (Option Item) := do
  if nestingLimit ≤ (← get).depth then
    return none
  else
    modify fun s => { s with depth := s.depth + 1 }
    if !(← opens) then
      dropItems []
    else
      advance 1
      bufferSkipWhitespace input
      if ← isAt input closing then
        closeItem item type []
      else if !(← canAccess input 0) then
        stepBack
        dropItems []
      else
        stepBack
        match ← loop (input.content.length + 1) element [] with
        | (items, false) => dropItems items
        | (items, true) =>
            if ← isAt input closing then closeItem item type items else dropItems items

/-- After an item, the loop goes on at a comma. -/
def nextElement (items : List Item) : Parse (Round (List Item) (List Item × Bool)) := do
  bufferSkipWhitespace input
  if ← isAt input ',' then return .next items else return .done (items, true)

section Elements

variable (parseValue : Item → Parse (Option Item))

def arrayElement (items : List Item) : Parse (Round (List Item) (List Item × Bool)) := do
  match ← newItem input with
  | none => return .done (items, false)
  | some current =>
      advance 1
      bufferSkipWhitespace input
      match ← parseValue current with
      | none => return .done (items ++ [current], false)
      | some current => nextElement input (items ++ [current])

def objectMember (items : List Item) : Parse (Round (List Item) (List Item × Bool)) := do
  match ← newItem input with
  | none => return .done (items, false)
  | some current =>
      if !(← canAccess input 1) then
        return .done (items ++ [current], false)
      else
        advance 1
        bufferSkipWhitespace input
        match ← parseString input current with
        | none => return .done (items ++ [current], false)
        | some named =>
            bufferSkipWhitespace input
            let current := { named with string := named.valuestring, valuestring := none }
            if !(← isAt input ':') then
              return .done (items ++ [current], false)
            else
              advance 1
              bufferSkipWhitespace input
              match ← parseValue current with
              | none => return .done (items ++ [current], false)
              | some current => nextElement input (items ++ [current])

def parseArray : Item → Parse (Option Item) :=
  parseContainer input (do return (← byteAt input 0) = '[') ']' .array (arrayElement input parseValue)

def parseObject : Item → Parse (Option Item) :=
  parseContainer input (isAt input '{') '}' .object (objectMember input parseValue)

end Elements

/-- `parse_value`, with calls nested less than `level` deep. -/
def parseValue : Nat → Item → Parse (Option Item)
  | 0, _ => undefined
  | level + 1, item => do
      if ← isAtWord input "null".toList then
        advance 4
        return some { item with type := .null }
      else if ← isAtWord input "false".toList then
        advance 5
        return some { item with type := .false }
      else if ← isAtWord input "true".toList then
        advance 4
        return some { item with type := .true, valueint := 1 }
      else if !(← canAccess input 0) then
        return none
      else
        let c ← byteAt input 0
        if c = '"' then parseString input item
        else if c = '-' ∨ c.isDigit then parseNumber input item
        else if c = '[' then parseArray input (parseValue level) item
        else if c = '{' then parseObject input (parseValue level) item
        else return none

/-! ## The call -/

/-- What a call returns, and the place of the error it leaves for `cJSON_GetErrorPtr`. -/
structure Parsed where
  item : Option Item
  error : Option Nat

def failed : Parse Parsed := do
  let offset := (← get).offset
  return { item := none, error := some (if offset < input.content.length then offset else input.content.length - 1) }

def cJSONParseWithLength : Parse Parsed := do
  if input.content = [] then
    failed input
  else
    match ← newItem input with
    | none => failed input
    | some item =>
        skipUtf8Bom input
        bufferSkipWhitespace input
        match ← parseValue input (nestingLimit + 1) item with
        | some item => return { item := some item, error := none }
        | none =>
            cJSONDelete (nestingLimit + 1) [item]
            failed input

end Tle.Cjson
