import Mathlib.Logic.Function.Basic
import Tle.Lib.Lease
import Tle.Lib.Run
import Tle.Queue.Ops

/-!
# The web processes and the graders on one database

SQLite serialises the transactions, so a run is a list of transactions of any processes in any order.
Each call of an operation is one action with the outcomes of its statements; `requeue_submission` is
two, and a web process that has taken the first holds the second pending until it takes it or starts
over. A connection whose `COMMIT` has failed keeps its transaction open, so that none of its later calls
commits anything: they are actions whose statements fail. The events are read off what the calls
return.
-/

namespace Tle.Queue
open Tle.Lib

structure System where
  db : Db
  /-- the submission whose result a web process has still to clear -/
  pending : Nat → Option (BitVec 32)

namespace System

def init : System := ⟨Db.empty, fun _ => none⟩

end System

inductive Action where
  | enqueue (c : EnqueueCall)
  | claim (c : ClaimCall)
  | complete (c : CompleteCall)
  | requeueJob (web : Nat) (id : BitVec 32) (ok : Bool)
  | requeueClear (web : Nat) (ok : Bool)

namespace System

def step (s : System) : Action → System
  | .enqueue c => { s with db := (enqueueSubmission c (.idle s.db)).1.committed }
  | .claim c => { s with db := (claimSubmission c (.idle s.db)).1.committed }
  | .complete c => { s with db := (completeSubmission c (.idle s.db)).1.committed }
  | .requeueJob web id ok =>
      let (session, changed) := requeueFirst ok id (.idle s.db)
      { db := session.committed
        pending := Function.update s.pending web (if changed.any (0 < ·) then some id else none) }
  | .requeueClear web ok =>
      match s.pending web with
      | none => s
      | some id =>
          { db := (requeueSecond ok id (.idle s.db)).1.committed
            pending := Function.update s.pending web none }

end System

/-! ## What the calls report -/

inductive Event where
  | claimed (k : Int) (token : Text)
  | completed (k : Int) (token verdict : Text)
  | requeued (k : Int)
  | expired (k : Int)
  deriving DecidableEq

namespace Event

/-- The event as the fencing of the job sees it. -/
def lease : Event → LeaseEvent Int Text
  | claimed k token => .grant k token
  | completed k token _ => .finish k token
  | requeued k => .revoke k
  | expired k => .revoke k

def verdict? : Event → Option (Int × Text)
  | completed k _ verdict => some (k, verdict)
  | _ => none

end Event

/-- The jobs the expiry of `c` requeues. -/
def Db.expiredBy (d : Db) (c : ClaimCall) : List Int :=
  if c.expire_ok then (d.gradingJobs.rows.filter (·.expired c.expiryNow)).map (·.submissionId) else []

/-- A claim that hands out no job is rolled back with its expiry. -/
def System.emit (s : System) : Action → List Event
  | .claim c =>
      match (claimSubmission c (.idle s.db)).2 with
      | .claimed job =>
          (s.db.expiredBy c).map .expired ++ [.claimed (rowKey job.submissionId) job.claimToken]
      | _ => []
  | .complete c =>
      if (completeSubmission c (.idle s.db)).2 = 0 then
        [.completed (rowKey c.id) c.token (parseVerdict c.report.result).1]
      else []
  | .requeueJob _ id ok =>
      if (requeueFirst ok id (.idle s.db)).2.any (0 < ·) then [.requeued (rowKey id)] else []
  | _ => []

theorem System.emit_claim_eq_nil {s : System} {c : ClaimCall}
    (h : ∀ job, (claimSubmission c (.idle s.db)).2 ≠ .claimed job) : s.emit (.claim c) = [] := by
  cases hreply : (claimSubmission c (.idle s.db)).2 with
  | failed => simp only [emit, hreply]
  | nothing => simp only [emit, hreply]
  | claimed job => exact absurd hreply (h job)

def after (as : List Action) : System := run System.step System.init as

def events (as : List Action) : List Event := history System.step System.emit System.init as

def claimTokens (as : List Action) : List Text :=
  as.filterMap fun
    | .claim c => some c.token
    | _ => none

/-- `token` was handed out by the last claim of `id`, and nothing has ended that claim. -/
def Current (es : List Event) (id : BitVec 32) (token : Text) : Prop :=
  Lease.Current (es.map Event.lease) (rowKey id) token

/-- The verdict of the last completion of the submission with key `k`. -/
def lastVerdict (es : List Event) (k : Int) : Option Text :=
  ((es.filterMap Event.verdict?).reverse.find? (·.1 = k)).map (·.2)

end Tle.Queue
