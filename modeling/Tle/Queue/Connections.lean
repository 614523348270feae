import Tle.Queue.Lemmas.Calls
import Tle.Queue.System

/-!
# Every process on a connection of its own

Here a transaction that a call has left open stays on the connection of its process: the later calls
of that process run inside it, until the process starts again. Every run is matched by one of the
system in which each call has the connection to itself.
-/

namespace Tle.Queue
open Tle.Lib

/-- The committed tables, and what each process holds: its open transaction and the submission whose
result it has still to clear. -/
structure Connections where
  db : Db
  txn : Nat → Option Db
  pending : Nat → Option (BitVec 32)

/-- What a process does; `restart` is a new process in its place. -/
inductive Call where
  | enqueue (c : EnqueueCall)
  | claim (c : ClaimCall)
  | complete (c : CompleteCall)
  | requeueJob (id : BitVec 32) (ok : Bool)
  | requeueClear (ok : Bool)
  | restart

namespace Connections

def init : Connections := ⟨Db.empty, fun _ => none, fun _ => none⟩

def session (s : Connections) (p : Nat) : Session := ⟨s.db, s.txn p⟩

/-- The state after process `p` has used its connection. -/
def use (s : Connections) (p : Nat) (c : Session) : Connections :=
  { s with db := c.committed, txn := Function.update s.txn p c.txn }

def hold (s : Connections) (p : Nat) (id : Option (BitVec 32)) : Connections :=
  { s with pending := Function.update s.pending p id }

def step (s : Connections) : Nat × Call → Connections
  | (p, .enqueue c) => s.use p (enqueueSubmission c (s.session p)).1
  | (p, .claim c) => s.use p (claimSubmission c (s.session p)).1
  | (p, .complete c) => s.use p (completeSubmission c (s.session p)).1
  | (p, .requeueJob id ok) =>
      let (session, changed) := requeueFirst ok id (s.session p)
      (s.use p session).hold p (if changed.any (0 < ·) then some id else none)
  | (p, .requeueClear ok) =>
      match s.pending p with
      | none => s
      | some id => (s.use p (requeueSecond ok id (s.session p)).1).hold p none
  | (p, .restart) => (s.use p (.idle s.db)).hold p none

/-! ## A connection with an open transaction -/

variable {d d' : Db}

theorem enqueueSubmission_open (c : EnqueueCall) :
    enqueueSubmission c ⟨d, some d'⟩ = (⟨d, some d'⟩, -1) := by
  cases h : c.begin_ok <;> simp [enqueueSubmission, Session.beginImmediate, h]

theorem claimSubmission_open (c : ClaimCall) :
    claimSubmission c ⟨d, some d'⟩ = (⟨d, some d'⟩, .failed) := by
  cases h : c.begin_ok <;> simp [claimSubmission, Session.beginImmediate, h]

theorem completeSubmission_open (c : CompleteCall) :
    completeSubmission c ⟨d, some d'⟩ = (⟨d, some d'⟩, -1) := by
  cases h : c.begin_ok <;> simp [completeSubmission, Session.beginImmediate, h]

theorem exec_open {α : Type} (d d' : Db) (ok : Bool) (stmt : Db → Option (Db × α)) :
    ∃ d'', (Session.exec ok stmt ⟨d, some d'⟩).1 = ⟨d, some d''⟩ := by
  cases ok with
  | false => exact ⟨d', rfl⟩
  | true =>
      cases h : stmt d' with
      | none => exact ⟨d', by simp [Session.exec, Session.view, h]⟩
      | some q => exact ⟨q.1, by simp [Session.exec, Session.view, h]⟩

theorem requeueFirst_open (d d' : Db) (ok : Bool) (id : BitVec 32) :
    ∃ d'', (requeueFirst ok id ⟨d, some d'⟩).1 = ⟨d, some d''⟩ :=
  exec_open d d' ok _

theorem requeueSecond_open (d d' : Db) (ok : Bool) (id : BitVec 32) :
    ∃ d'', (requeueSecond ok id ⟨d, some d'⟩).1 = ⟨d, some d''⟩ := by
  obtain ⟨d'', h⟩ := exec_open d d' ok (fun d => some (d.clearResult id))
  refine ⟨d'', h ▸ ?_⟩
  unfold requeueSecond
  split <;> simp_all

/-! ## Runs of the connections are runs of the system -/

/-- The committed tables are the same, and a process outside any transaction holds the same
submission. -/
structure Matches (s : Connections) (t : System) : Prop where
  db : s.db = t.db
  pending : ∀ p, s.txn p = none → s.pending p = t.pending p

namespace Matches

variable {s : Connections} {t : System} {p : Nat}

theorem use (h : Matches s t) (c : Session) (hc : c.txn = none → s.txn p = none) :
    Matches (s.use p c) { t with db := c.committed } where
  db := rfl
  pending q hq := by
    by_cases hqp : q = p
    · subst hqp
      exact h.pending q (hc (by simpa [Connections.use] using hq))
    · exact h.pending q (by simpa [Connections.use, hqp] using hq)

theorem hold (h : Matches s t) (id : Option (BitVec 32)) :
    Matches (s.hold p id) { t with pending := Function.update t.pending p id } where
  db := h.db
  pending q hq := by
    by_cases hqp : q = p
    · simp [Connections.hold, hqp]
    · simpa [Connections.hold, hqp] using h.pending q hq

/-- A process inside a transaction changes nothing that the others see. -/
theorem use_open (h : Matches s t) (d' : Db) : Matches (s.use p ⟨s.db, some d'⟩) t where
  db := h.db
  pending q hq := by
    by_cases hqp : q = p
    · simp [Connections.use, hqp] at hq
    · exact h.pending q (by simpa [Connections.use, hqp] using hq)

theorem hold_open (h : Matches s t) (hp : s.txn p ≠ none) (id : Option (BitVec 32)) :
    Matches (s.hold p id) t where
  db := h.db
  pending q hq := by
    by_cases hqp : q = p
    · exact absurd (hqp ▸ hq) hp
    · simpa [Connections.hold, hqp] using h.pending q hq

theorem restart (h : Matches s t) :
    Matches (s.step (p, .restart)) { t with pending := Function.update t.pending p none } where
  db := h.db
  pending q hq := by
    by_cases hqp : q = p
    · simp [step, Connections.hold, hqp]
    · have hfree : s.txn q = none := by simpa [step, Connections.use, Connections.hold, hqp] using hq
      simpa [step, Connections.use, Connections.hold, hqp] using h.pending q hfree

end Matches

theorem init_matches : Matches init System.init := ⟨rfl, fun _ _ => rfl⟩

theorem use_txn (s : Connections) (p : Nat) (c : Session) : (s.use p c).txn p = c.txn := by
  simp [use]

theorem Matches.step_open {s : Connections} {t : System} (h : Matches s t) {p : Nat} {d' : Db}
    (htxn : s.txn p = some d') (a : Call) (ha : a ≠ .restart) : Matches (s.step (p, a)) t := by
  have hsession : s.session p = ⟨s.db, some d'⟩ := by simp [session, htxn]
  cases a with
  | enqueue c =>
      simp only [step, hsession, enqueueSubmission_open]
      exact h.use_open d'
  | claim c =>
      simp only [step, hsession, claimSubmission_open]
      exact h.use_open d'
  | complete c =>
      simp only [step, hsession, completeSubmission_open]
      exact h.use_open d'
  | requeueJob id ok =>
      obtain ⟨d'', heq⟩ := requeueFirst_open s.db d' ok id
      simp only [step, hsession, heq]
      exact (h.use_open d'').hold_open (by simp [use_txn]) _
  | requeueClear ok =>
      simp only [step, hsession]
      split
      · exact h
      · rename_i id _
        obtain ⟨d'', heq⟩ := requeueSecond_open s.db d' ok id
        rw [heq]
        exact (h.use_open d'').hold_open (by simp [use_txn]) _
  | restart => exact absurd rfl ha

theorem Matches.step_idle {s : Connections} {t : System} (h : Matches s t) {p : Nat}
    (htxn : s.txn p = none) (a : Call) (ha : a ≠ .restart) :
    ∃ b, Matches (s.step (p, a)) (t.step b) := by
  have hsession : s.session p = .idle t.db := by simp [session, htxn, h.db, Session.idle]
  have hidle : ∀ c : Session, c.txn = none → s.txn p = none := fun _ _ => htxn
  cases a with
  | enqueue c => exact ⟨.enqueue c, by rw [step, hsession]; exact h.use _ (hidle _)⟩
  | claim c => exact ⟨.claim c, by rw [step, hsession]; exact h.use _ (hidle _)⟩
  | complete c => exact ⟨.complete c, by rw [step, hsession]; exact h.use _ (hidle _)⟩
  | requeueJob id ok =>
      exact ⟨.requeueJob p id ok, by rw [step, hsession]; exact (h.use _ (hidle _)).hold _⟩
  | requeueClear ok =>
      refine ⟨.requeueClear p ok, ?_⟩
      simp only [step, System.step, hsession, h.pending p htxn]
      cases t.pending p with
      | none => exact h
      | some id => exact (h.use _ (hidle _)).hold _
  | restart => exact absurd rfl ha

theorem Matches.step {s : Connections} {t : System} (h : Matches s t) (a : Nat × Call) :
    ∃ bs, Matches (s.step a) (run System.step t bs) := by
  obtain ⟨p, a⟩ := a
  by_cases ha : a = .restart
  · subst ha
    exact ⟨[.requeueJob p 0 false], h.restart⟩
  · cases htxn : s.txn p with
    | none =>
        obtain ⟨b, hb⟩ := h.step_idle htxn a ha
        exact ⟨[b], hb⟩
    | some d' => exact ⟨[], h.step_open htxn a ha⟩

end Connections

def connectionsAfter (as : List (Nat × Call)) : Connections := run Connections.step Connections.init as

/-- What the connections have committed is what the system has after some run. -/
theorem connectionsAfter_db (as : List (Nat × Call)) : ∃ bs, (connectionsAfter as).db = (after bs).db := by
  obtain ⟨bs, h⟩ := run_simulated Connections.init_matches
    (fun _ _ a (h : Connections.Matches _ _) => h.step a) as
  exact ⟨bs, h.db⟩

end Tle.Queue
