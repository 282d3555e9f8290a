import SnmpAgent.Proofs.Server.Exchanges

/-!
# Schedules of exchanges

A server may keep a client waiting, but apart from that it has no choice in the
exchange with it. What comes in, and what is answered to the requests in it,
decide what happens at all, in which order, which replies are written, and
whether the exchange ends. Only the moment at which a reply is written is left
open, so exchanges are compared as if the reply that is due had been written.

* `Exchange.Permits`: the transfers of the kind that a client is waited for, in
  which all writes succeed;
* `Exchange.schedule`: the order in which everything happens;
* `Exchange.schedule_incoming`: what happens follows the schedule of what came
  in;
* `Exchange.run_schedule`, `Exchange.writes_schedule`: where the exchange is,
  and what was written, are told by the schedule.
-/

namespace SnmpAgent

namespace Transfer

/-- Whether octets came in, or the stream turned out to be broken when they
    should have. -/
def isIncoming : Transfer → Bool
  | .read _ | .failed => true
  | .written | .pending => false

/-- Whether anything came of the attempt. -/
def isEffective : Transfer → Bool
  | .read _ | .written | .failed => true
  | .pending => false

end Transfer

namespace Exchange

/-! ## Many transfers -/

/-- The exchange once the reply that is due, if one is, has been written. -/
def settled : Exchange → Exchange
  | .replying _ => .receiving []
  | .receiving octets => .receiving octets
  | .ended => .ended

/-- The transfer that writes the reply that is due, if one is. -/
def due (x : Exchange) : List Transfer := x.unwritten.map fun _ => .written

/-- Whether a transfer is of the kind that the client is waited for, and does
    not fail to write. -/
def Permits : Exchange → Transfer → Prop
  | .receiving _, t => t ≠ .written
  | .replying _, t => t = .written ∨ t = .pending
  | .ended, _ => False

section

variable (answer : List UInt8 → Except AgentError (Option (List UInt8)))

/-- The exchange after some transfers. -/
def run : Exchange → List Transfer → Exchange
  | x, [] => x
  | x, t :: ts => run (x.next answer t) ts

/-- The replies that are written in some transfers. -/
def writes : Exchange → List Transfer → List (List UInt8)
  | _, [] => []
  | x, t :: ts => (x.written? t).toList ++ writes (x.next answer t) ts

/-- Whether all of some transfers are permitted. -/
def PermitsAll : Exchange → List Transfer → Prop
  | _, [] => True
  | x, t :: ts => x.Permits t ∧ PermitsAll (x.next answer t) ts

/-- What happens when these transfers bring something in and every reply is
    written at once. -/
def schedule : Exchange → List Transfer → List Transfer
  | _, [] => []
  | x, t :: ts => t :: ((x.next answer t).due ++ schedule (x.next answer t).settled ts)

end

variable {answer : List UInt8 → Except AgentError (Option (List UInt8))} {x : Exchange}

theorem run_append (ts us : List Transfer) :
    x.run answer (ts ++ us) = (x.run answer ts).run answer us := by
  induction ts generalizing x with
  | nil => rfl
  | cons t ts ih => exact ih

theorem writes_append (ts us : List Transfer) :
    x.writes answer (ts ++ us) = x.writes answer ts ++ (x.run answer ts).writes answer us := by
  induction ts generalizing x with
  | nil => rfl
  | cons t ts ih => rw [List.cons_append, writes, ih, writes, run, List.append_assoc]

theorem run_due : x.run answer x.due = x.settled := by
  cases x <;> rfl

theorem writes_due : x.writes answer x.due = x.unwritten := by
  cases x <;> rfl

theorem next_pending : x.next answer .pending = x := by
  cases x <;> rfl

theorem written?_pending : x.written? .pending = none := by
  cases x <;> rfl

/-- Attempts of which nothing came do not matter. -/
theorem run_effective (ts : List Transfer) :
    x.run answer (ts.filter (·.isEffective)) = x.run answer ts := by
  induction ts generalizing x with
  | nil => rfl
  | cons t ts ih =>
    cases t with
    | pending =>
      rw [run, next_pending]
      exact ih
    | read | written | failed => exact ih

theorem writes_effective (ts : List Transfer) :
    x.writes answer (ts.filter (·.isEffective)) = x.writes answer ts := by
  induction ts generalizing x with
  | nil => rfl
  | cons t ts ih =>
    cases t with
    | pending =>
      rw [writes, next_pending, written?_pending]
      exact ih
    | read | written | failed => exact congrArg (_ ++ ·) ih

/-! ## Schedules -/

/-- What happens, with the reply that is due in the end, is the reply that was
    due in the beginning and the schedule of what came in. -/
theorem effective_append_due {ts : List Transfer} (h : x.PermitsAll answer ts) :
    ts.filter (·.isEffective) ++ (x.run answer ts).due =
      x.due ++ x.settled.schedule answer (ts.filter (·.isIncoming)) := by
  induction ts generalizing x with
  | nil => exact (List.append_nil _).symm
  | cons t ts ih =>
    obtain ⟨ht, hts⟩ := h
    replace ih := ih hts
    cases x with
    | receiving octets =>
      -- Whatever comes in is the next item of both sides; the reply that is due then is the first
      -- of the further ones.
      cases t with
      | read | failed => exact congrArg (_ :: ·) ih
      | written => exact absurd rfl ht
      | pending => exact ih
    | replying reply =>
      obtain rfl | rfl := ht
      · exact congrArg (_ :: ·) ih
      · exact ih
    | ended => exact ht.elim

variable {ts : List Transfer}

/-- From the beginning on, what happens follows the schedule of what came in. -/
theorem schedule_incoming (h : (receiving []).PermitsAll answer ts) :
    (receiving []).schedule answer (ts.filter (·.isIncoming)) =
      ts.filter (·.isEffective) ++ ((receiving []).run answer ts).due :=
  (effective_append_due h).symm

/-- The schedule tells where the exchange is. -/
theorem run_schedule (h : (receiving []).PermitsAll answer ts) :
    (receiving []).run answer ((receiving []).schedule answer (ts.filter (·.isIncoming))) =
      ((receiving []).run answer ts).settled := by
  rw [schedule_incoming h, run_append, run_effective, run_due]

/-- The schedule tells what is written. -/
theorem writes_schedule (h : (receiving []).PermitsAll answer ts) :
    (receiving []).writes answer ((receiving []).schedule answer (ts.filter (·.isIncoming))) =
      (receiving []).writes answer ts ++ ((receiving []).run answer ts).unwritten := by
  rw [schedule_incoming h, writes_append, writes_effective, run_effective, writes_due]

/-- The exchange ends exactly if it does with the reply that is due written. -/
theorem settled_eq_ended_iff : x.settled = .ended ↔ x = .ended := by
  cases x <;> simp [settled]

end Exchange

end SnmpAgent
