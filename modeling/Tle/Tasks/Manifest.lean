import Tle.Lib.Json

/-!
# A task directory and its manifest

The checks of `read_tasks` on one directory entry, up to the first statement it runs for the task.
The configured tasks path is short enough for every path of an entry with a valid name.
-/

namespace Tle.Tasks
open Tle.Lib

inductive Script where
  | absent
  | executable
  | unusable
  deriving DecidableEq

inductive Stage where
  | judge
  | compile
  | run
  | check
  | score
  deriving DecidableEq

def stageNames : List Stage := [.judge, .compile, .run, .check, .score]

/-- An entry of the tasks directory. A manifest is `none` when it cannot be read, and `some none` when
it is no JSON document. -/
structure TaskDir where
  name : Text
  isDirectory : Bool
  manifest : Option (Option Json)
  juryCpp : Bool
  jury : Bool
  script : Stage → Script
  input : Nat → Bool

/-- The fields of `struct task` that `read_tasks` fills. -/
structure Task where
  name : Text
  pk : BitVec 32
  memoryLimit : BitVec 32
  timeLimit : BitVec 32
  desc : Text
  comparison : Text
  countCases : BitVec 32
  maxScore : Rat
  deriving DecidableEq

/-- `copy_text` into a buffer of that size. -/
def copyText (size : Nat) (value : Text) : Text := value.take (size - 1)

def validDescriptionName (name : Text) : Bool :=
  name ≠ [] && name ≠ ".".toList && name ≠ "..".toList && !name.contains '/' && !name.contains '\\'

/-- `(unsigned)item->valueint` -/
def unsignedField (item : Json) : BitVec 32 := BitVec.ofInt 32 item.valueint

/-- The fields of a manifest, or `none` for `invalid task manifest`. -/
def manifestTask (name : Text) (manifest : Json) : Option Task := do
  let pk ← manifest.getObjectItem "pk"
  let time ← manifest.getObjectItem "time"
  let memory ← manifest.getObjectItem "mem"
  let countCases ← manifest.getObjectItem "ncase"
  let comparison ← manifest.getObjectItem "cmp_type"
  let desc := manifest.getObjectItem "desc"
  let maxScore := manifest.getObjectItem "max_score"
  guard (pk.isNumber && time.isNumber && memory.isNumber && countCases.isNumber &&
    comparison.isString && desc.all (·.isString) && maxScore.all (·.isNumber))
  return {
    name := copyText 256 name
    pk := unsignedField pk
    memoryLimit := unsignedField memory
    timeLimit := unsignedField time
    desc := copyText 1024 ((desc.map (·.valuestring)).getD "desc.pdf".toList)
    comparison := copyText 99 comparison.valuestring
    countCases := unsignedField countCases
    maxScore := (maxScore.map (·.valuedouble)).getD 100 }

/-- What the checks make of an entry. `endless` is the loop over the inputs of a task with `UINT_MAX`
cases, whose counter wraps. -/
inductive Checked where
  | skip
  | die
  | endless
  | load (task : Task) (manifest : Json)

/-- The loop over `tests/<k>.in`. -/
def checkInputs (d : TaskDir) (task : Task) (manifest : Json) : Checked :=
  let n := task.countCases.toNat
  if n = 2 ^ 32 - 1 then
    if (List.range (n + 1)).all d.input then .endless else .die
  else if (List.range' 1 n).all d.input then .load task manifest
  else .die

def checkEntry (d : TaskDir) : Checked :=
  if d.name.head? = some '.' ∨ d.name.length ≥ 256 ∨ !d.isDirectory then .skip
  else match d.manifest with
    | none => .skip
    | some none => .die
    | some (some manifest) =>
        match manifestTask d.name manifest with
        | none => .die
        | some task =>
            if !validDescriptionName task.desc then .skip
            else if task.comparison = "output_only".toList ∧ task.countCases ≠ 1 then .die
            else if task.comparison = "special".toList ∧ !d.juryCpp ∧ !d.jury then .die
            else if stageNames.any (fun stage => d.script stage = .unusable) then .die
            else checkInputs d task manifest

end Tle.Tasks
