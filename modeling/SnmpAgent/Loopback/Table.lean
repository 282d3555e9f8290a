import SnmpAgent.Loopback.Stream

/-!
# Scripts for a table of clients

A script enters clients into a table, lets octets arrive for them and asks
which one is ready. The octets are never read, so a client for which some have
arrived stays ready.

* `TableScript.perform`: one action, its answer and the table after it.
-/

namespace SnmpAgent

/-- A table of clients with the streams of a script. -/
structure TableScript where
  machine : Machine
  table : ClientTable
  streams : List Stream

namespace TableScript

/-- What a script does with a table: a client with its last activity at an
    instant is entered, an octet arrives for a client, the next ready client or
    the one at a position is asked for, or closed clients are removed. -/
inductive Action where
  | insert (peer : SocketAddr) (lastActivity : Nat)
  | data (peer : SocketAddr)
  | ready
  | get (i : Nat)
  | reap

/-- What an action answers. A count is that of the clients that were removed. -/
inductive Answer where
  | peer (peer? : Option SocketAddr)
  | position (i? : Option Nat)
  | count (n : Nat)
  | nothing

/-- The table without clients. -/
def start (machine : Machine) (capacity : Nat) : TableScript :=
  ⟨machine, ClientTable.empty capacity, []⟩

/-- Whether something can be transferred from or to a client. -/
def isReady (t : TableScript) (c : Client) : Bool :=
  (t.streams.find? (·.peer = c.peer)).any fun s => (s.transfer? c).isSome

/-- One action, unless it needs a socket that cannot be opened. -/
def perform (t : TableScript) : Action → Option (Answer × TableScript)
  | .insert peer lastActivity =>
    if t.machine.opensSockets then
      let evicted? := t.table.evicted?.map (·.peer)
      let streams := t.streams.filter fun s => s.peer ≠ peer ∧ some s.peer ≠ evicted?
      some (.peer evicted?,
        { t with
          table := t.table.insert (Client.accepted peer lastActivity)
          streams := Stream.connected "" peer :: streams })
    else none
  | .data peer =>
    some (.nothing,
      { t with streams := t.streams.map fun s => if s.peer = peer then s.send [0] else s })
  | .ready =>
    match t.table.ready? t.isReady with
    | some i => some (.position i, { t with table := t.table.served i })
    | none => some (.position none, t)
  | .get i => some (.peer ((t.table.get? i).map (·.peer)), t)
  | .reap => some (.count t.table.leaving.length, { t with table := t.table.reap })

end TableScript

end SnmpAgent
