import Tle.Grade.Run
import Tle.Lib.InPlace

/-!
# Reading a judge's result where it stands

The loop of `run_task_script` over the lines of the result file and `trim_line`, on the bytes that `read_file` has
put into memory. `line` and `equals` are indices into them.
-/

namespace Tle.Grade.InPlace
open Tle.Lib

/-- `strchr(" \t\r\n", c)` is not `NULL`, for a `c` that is no terminator. -/
def isBlank (c : Char) : Bool := c ∈ " \t\r\n".toList

/-- The second loop of `trim_line`, with the bytes from `line` to `end`. -/
def cutBlanks (mem : Text) (line : Nat) : Nat → Text
  | 0 => mem
  | n + 1 => if (mem[line + n]?).any isBlank then cutBlanks (mem.set (line + n) '\x00') line n else mem

/-- The memory and the pointer that is returned. -/
def trimLine (mem : Text) (line : Nat) : Text × Nat :=
  let line := line + ((strAt mem line).takeWhile isBlank).length
  (cutBlanks mem line (strAt mem line).length, line)

/-- `!strcmp(trim_line(line), word)` -/
def keyIs (mem : Text) (line : Nat) (word : String) : Text × Bool :=
  let (mem, key) := trimLine mem line
  (mem, strAt mem key = word.toList)

/-- The body of the loop. -/
def readLine (files : Text → Option Text) (mem : Text) (r : JudgeReport) (line : Nat) : Text × JudgeReport :=
  match strchr mem line '=' with
  | none => (mem, r)
  | some equals =>
      let mem := mem.set equals '\x00'
      let (mem, equals) := trimLine mem (equals + 1)
      let (mem, isKey) := keyIs mem line "result"
      if isKey then (mem, { r with result := some (strAt mem equals) })
      else
        let (mem, isKey) := keyIs mem line "score"
        if isKey then (mem, { r with score := strtod (strAt mem equals) })
        else
          let (mem, isKey) := keyIs mem line "time_ms"
          if isKey then (mem, { r with timeUsed := strtoul (strAt mem equals) % 2 ^ 32 })
          else
            let (mem, isKey) := keyIs mem line "memory_kb"
            if isKey then (mem, { r with memoryUsed := strtoul (strAt mem equals) % 2 ^ 32 })
            else
              let (mem, isKey) := keyIs mem line "compiler_output_file"
              if isKey then (mem, { r with compilerOutput := files (strAt mem equals) }) else (mem, r)

theorem length_cutBlanks (mem : Text) (line n : Nat) : (cutBlanks mem line n).length = mem.length := by
  induction n generalizing mem with
  | zero => rfl
  | succ n ih =>
      unfold cutBlanks
      split
      · rw [ih, List.length_set]
      · rfl

theorem length_trimLine (mem : Text) (line : Nat) : (trimLine mem line).1.length = mem.length :=
  length_cutBlanks ..

theorem length_keyIs (mem : Text) (line : Nat) (word : String) : (keyIs mem line word).1.length = mem.length :=
  length_trimLine ..

theorem length_readLine (files : Text → Option Text) (mem : Text) (r : JudgeReport) (line : Nat) :
    (readLine files mem r line).1.length = mem.length := by
  unfold readLine
  split
  · rfl
  · simp only
    split_ifs <;> simp only [length_keyIs, length_trimLine, List.length_set]

/-- The loop, from the saved pointer on. -/
def readLines (files : Text → Option Text) (mem : Text) (r : JudgeReport) (saveptr : Nat) : JudgeReport :=
  match _h : strtokR mem saveptr '\n' with
  | none => r
  | some (line, mem', saveptr') =>
      readLines files (readLine files mem' r line).1 (readLine files mem' r line).2 saveptr'
termination_by mem.length - saveptr
decreasing_by
  rw [length_readLine]
  exact strtokR_advances _h

/-- The report of a result file; `read_file` has put a terminator behind it. -/
def judgeReport (files : Text → Option Text) (written : Text) : JudgeReport :=
  readLines files (written ++ ['\x00']) {} 0

end Tle.Grade.InPlace
