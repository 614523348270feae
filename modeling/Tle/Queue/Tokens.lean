import Tle.Queue.System

/-!
# Where the claim tokens come from

The grader processes of one host and their calls of `claim_submission`. Each process counts its calls from 0 on in a
`static unsigned`, and a process may get the number of one that has ended.
-/

namespace Tle.Queue.Tokens
open Tle.Lib

/-- A `pid_t` of a process. -/
structure Pid where
  value : Nat
  pos : 0 < value
  lt : value < 2 ^ 31
  deriving DecidableEq

/-- What `clock_gettime(CLOCK_MONOTONIC, &now)` stores. -/
structure Timespec where
  sec : Nat
  nsec : Nat
  nsec_lt : nsec < 10 ^ 9
  deriving DecidableEq

def Timespec.Before (a b : Timespec) : Prop := a.sec < b.sec ∨ a.sec = b.sec ∧ a.nsec < b.nsec

instance (a b : Timespec) : Decidable (a.Before b) :=
  inferInstanceAs (Decidable (a.sec < b.sec ∨ a.sec = b.sec ∧ a.nsec < b.nsec))

/-- The string that `snprintf` leaves in an array, and `strncpy` with a terminator behind it. -/
def inArray (size : Nat) (s : Text) : Text := (cstr s).take (size - 1)

structure Process where
  pid : Pid
  sequence : BitVec 32 := 0
  running : Bool := true

/-- A call that has read the clock, with the rest of what it meets. -/
structure Call where
  /-- the number of its process, in the order of their starts -/
  process : Nat
  pid : Pid
  now : Timespec
  /-- the counter before the call -/
  sequence : BitVec 32
  request : ClaimCall

namespace Call

/-- `"%ld-%ld-%u"` -/
def format (c : Call) : Text :=
  formatInt c.pid.value ++ '-' :: (formatInt c.now.nsec ++ '-' :: formatUnsigned c.sequence.toNat)

/-- `token` -/
def token (c : Call) : Text := inArray 96 c.format

/-- `job->claim_token` -/
def jobToken (c : Call) : Text := inArray 96 c.token

/-- The transaction of the call. -/
def action (c : Call) : Action := .claim { c.request with token := c.token, clock_ok := true }

end Call

/-- All processes that have been started. -/
structure Host where
  processes : List Process

inductive HostEvent where
  | start (pid : Pid)
  | exit (process : Nat)
  /-- the clock may fail -/
  | claim (process : Nat) (now : Option Timespec) (request : ClaimCall)

namespace Host

def init : Host := ⟨[]⟩

/-- The process, while it runs. -/
def running (h : Host) (process : Nat) : Option Process := h.processes[process]?.filter (·.running)

def step (h : Host) : HostEvent → Host
  -- a number is not given to two processes at a time
  | .start pid => if h.processes.any fun p => p.running && p.pid = pid then h else ⟨h.processes ++ [{ pid := pid }]⟩
  | .exit process => ⟨h.processes.modify process fun p => { p with running := false }⟩
  | .claim process now _ =>
      match h.running process, now with
      | some p, some _ => ⟨h.processes.set process { p with sequence := p.sequence + 1 }⟩
      | _, _ => h

def emit (h : Host) : HostEvent → List Call
  | .claim process now request =>
      match h.running process, now with
      | some p, some now => [{ process, pid := p.pid, now, sequence := p.sequence, request }]
      | _, _ => []
  | _ => []

end Host

def hostAfter (es : List HostEvent) : Host := run Host.step Host.init es

/-- The calls of a run, in their order. -/
def calls (es : List HostEvent) : List Call := history Host.step Host.emit Host.init es

/-- The clock goes forward from call to call. -/
def ClockIncreases (es : List HostEvent) : Prop := (calls es).Pairwise fun c c' => c.now.Before c'.now

def callsOf (process : Nat) (cs : List Call) : List Call := cs.filter fun c => c.process = process

/-- No process calls the function so often that its counter wraps. -/
def CounterFits (es : List HostEvent) : Prop := ∀ process, (callsOf process (calls es)).length < 2 ^ 32

end Tle.Queue.Tokens
